import Mathlib.Data.List.Nodup
import Mathlib.Data.List.Pairwise
import Marginalia.Proofs.Registry.Index

/-! # Registering in any order

A registry made of languages with different names holds these languages and what they list, and
nothing else (`Holds`). It can be made exactly if no two of them list the same extension, whatever
their order, and it is the same in every order (`ofLanguages_perm`).
-/

namespace Marginalia.Registry

variable {r r' : Registry} {l : Language} {ls done : List Language}

/-- No extension is listed by both languages. -/
def Apart (l l' : Language) : Prop := ∀ ext ∈ l.extensions, ext ∉ l'.extensions

theorem Apart.symm {l l' : Language} (h : Apart l l') : Apart l' l :=
  fun ext hext' hext => h ext hext hext'

instance : Std.Symm Apart := ⟨fun _ _ => Apart.symm⟩

/-- The registry has the languages of a list under their names, and no other extensions than
theirs. -/
structure Holds (r : Registry) (ls : List Language) : Prop where
  find?_iff : ∀ name l, r.languages.find? name = some l ↔ l ∈ ls ∧ l.name = name
  owner_iff : ∀ ext name,
    r.owners.find? ext = some name ↔ ∃ l ∈ ls, ext ∈ l.extensions ∧ l.name = name

theorem holds_empty : Holds {} [] := by
  constructor
  · simp
  · simp

theorem Holds.eq (h : r.Holds ls) (h' : r'.Holds done) (hmem : ∀ l, l ∈ ls ↔ l ∈ done) :
    r = r' := by
  have hlanguages : r.languages = r'.languages := by
    apply Table.eq_of_find?_eq
    intro name
    apply Option.ext
    intro l
    rw [h.find?_iff, h'.find?_iff, hmem]
  have howners : r.owners = r'.owners := by
    apply Table.eq_of_find?_eq
    intro ext
    apply Option.ext
    intro name
    simp only [h.owner_iff, h'.owner_iff, hmem]
  exact congrArg₂ Registry.mk hlanguages howners

theorem Holds.add (h : r.Holds done) (hnew : ∀ m ∈ done, m.name ≠ l.name)
    (hadd : r.add l = .ok r') : r'.Holds (done ++ [l]) := by
  have hupdates := updates_of_add hadd
  constructor
  · intro name m
    rw [hupdates.languages_eq, List.mem_append, List.mem_singleton]
    split
    · rename_i hname
      constructor
      · rintro ⟨⟩
        exact ⟨.inr rfl, hname⟩
      · rintro ⟨hm | rfl, hmname⟩
        · exact absurd (hmname.trans hname.symm) (hnew m hm)
        · rfl
    · rename_i hname
      rw [h.find?_iff]
      constructor
      · rintro ⟨hm, hmname⟩
        exact ⟨.inl hm, hmname⟩
      · rintro ⟨hm | rfl, hmname⟩
        · exact ⟨hm, hmname⟩
        · exact absurd hmname hname
  · intro ext name
    rw [hupdates.owners_eq]
    simp only [List.mem_append, List.mem_singleton, or_and_right, exists_or, exists_eq_left]
    split
    · rename_i hext
      constructor
      · rintro ⟨⟩
        exact .inr ⟨hext, rfl⟩
      · -- What another language lists is not free for `l`.
        rintro (⟨m, hm, hmext, rfl⟩ | ⟨_, rfl⟩)
        · have howner := (h.owner_iff ext m.name).2 ⟨m, hm, hmext, rfl⟩
          rw [hupdates.free ext hext m.name howner]
        · rfl
    · rename_i hext
      rw [h.owner_iff]
      constructor
      · exact .inl
      · rintro (hm | ⟨hlext, _⟩)
        · exact hm
        · exact absurd hlext hext

theorem exists_add_iff :
    (∃ r', r.add l = .ok r') ↔
      ∀ ext ∈ l.extensions, ∀ owner, r.owners.find? ext = some owner → owner = l.name := by
  constructor
  · rintro ⟨r', hadd⟩
    exact (updates_of_add hadd).free
  · intro hfree
    have hall : (l.extensions.forM fun ext => r.ensureFree ext l.name) = .ok ⟨⟩ :=
      forM_eq_ok_iff.2 fun ext hext => ensureFree_eq_ok_iff.2 (hfree ext hext)
    rw [Registry.add, hall]
    exact ⟨_, rfl⟩

theorem Holds.exists_add_iff (h : r.Holds done) (hnew : ∀ m ∈ done, m.name ≠ l.name) :
    (∃ r', r.add l = .ok r') ↔ ∀ m ∈ done, Apart m l := by
  rw [Registry.exists_add_iff]
  constructor
  · intro hfree m hm ext hmext hext
    have howner := (h.owner_iff ext m.name).2 ⟨m, hm, hmext, rfl⟩
    exact hnew m hm (hfree ext hext m.name howner)
  · intro hapart ext hext owner howner
    obtain ⟨m, hm, hmext, _⟩ := (h.owner_iff ext owner).1 howner
    exact absurd hext (hapart m hm ext hmext)

/-- Adding languages after those that a registry holds. -/
theorem Holds.foldlM_add (h : r.Holds done) (hnames : ((done ++ ls).map (·.name)).Nodup) :
    ((∃ r', ls.foldlM Registry.add r = .ok r') ↔
      (∀ m ∈ done, ∀ l ∈ ls, Apart m l) ∧ ls.Pairwise Apart) ∧
    ∀ r', ls.foldlM Registry.add r = .ok r' → r'.Holds (done ++ ls) := by
  induction ls generalizing r done with
  | nil =>
    constructor
    · simp [pure, Except.pure]
    · rintro r' ⟨⟩
      rwa [List.append_nil]
  | cons l ls ih =>
    have hnew : ∀ m ∈ done, m.name ≠ l.name := by
      intro m hm
      rw [List.map_append, List.nodup_append] at hnames
      exact hnames.2.2 _ (List.mem_map_of_mem hm) _ (by simp)
    have hsplit : done ++ l :: ls = (done ++ [l]) ++ ls := by simp
    rw [hsplit] at hnames ⊢
    have hstep (mid : Registry) (hadd : r.add l = .ok mid) := ih (h.add hnew hadd) hnames
    constructor
    · constructor
      · rintro ⟨r', hok⟩
        rw [List.foldlM_cons] at hok
        obtain ⟨mid, hadd, hok⟩ := exists_of_bind_eq_ok hok
        have hbefore := (h.exists_add_iff hnew).1 ⟨mid, hadd⟩
        obtain ⟨hrest, hpairwise⟩ := (hstep mid hadd).1.1 ⟨r', hok⟩
        simp only [List.mem_append, List.mem_singleton, or_imp, forall_and, forall_eq] at hrest
        constructor
        · intro m hm l' hl'
          rcases List.mem_cons.1 hl' with rfl | hl'
          · exact hbefore m hm
          · exact hrest.1 m hm l' hl'
        · exact List.pairwise_cons.2 ⟨hrest.2, hpairwise⟩
      · rintro ⟨hbefore, hpairwise⟩
        obtain ⟨hfirst, hpairwise⟩ := List.pairwise_cons.1 hpairwise
        obtain ⟨mid, hadd⟩ :=
          (h.exists_add_iff hnew).2 fun m hm => hbefore m hm l List.mem_cons_self
        rw [List.foldlM_cons, hadd]
        apply (hstep mid hadd).1.2
        constructor
        · intro m hm l' hl'
          rcases List.mem_append.1 hm with hm | hm
          · exact hbefore m hm l' (List.mem_cons_of_mem _ hl')
          · rw [List.mem_singleton.1 hm]
            exact hfirst l' hl'
        · exact hpairwise
    · intro r' hok
      rw [List.foldlM_cons] at hok
      obtain ⟨mid, hadd, hok⟩ := exists_of_bind_eq_ok hok
      exact (hstep mid hadd).2 r' hok

theorem exists_ofLanguages_iff (hnames : (ls.map (·.name)).Nodup) :
    (∃ r, ofLanguages ls = .ok r) ↔ ls.Pairwise Apart := by
  rw [ofLanguages, (holds_empty.foldlM_add hnames).1]
  simp

theorem holds_ofLanguages (hnames : (ls.map (·.name)).Nodup) (hok : ofLanguages ls = .ok r) :
    r.Holds ls :=
  (holds_empty.foldlM_add hnames).2 r hok

/-- A look-up by name that goes through languages in some order where none has the name itself. -/
def byNameAmong (r : Registry) (order : List Language) (name : Text) : Option Language :=
  (r.languages.find? name).or (order.find? (·.answersTo name))

theorem byName?_eq (r : Registry) (name : Text) :
    r.byName? name = r.byNameAmong r.languages.values name := by
  rw [byName?, byNameAmong]
  cases r.languages.find? name <;> rfl

theorem find?_eq_of_unique {α : Type} {p : α → Bool} {xs ys : List α} (hperm : ys.Perm xs)
    (h : ∃! x, x ∈ xs ∧ p x = true) : ys.find? p = xs.find? p := by
  obtain ⟨x, ⟨hx, hp⟩, hunique⟩ := h
  have hfind {zs : List α} (hzs : zs.Perm xs) : zs.find? p = some x := by
    obtain ⟨y, hy⟩ := Option.isSome_iff_exists.1 (List.find?_isSome.2 ⟨x, hzs.mem_iff.2 hx, hp⟩)
    have hmem := hzs.mem_iff.1 (List.mem_of_find?_eq_some hy)
    rw [hy, hunique y ⟨hmem, List.find?_some hy⟩]
  rw [hfind hperm, hfind (.refl xs)]

/-- The order in which the languages are gone through does not count for a registered name, nor for
one that a single language answers to. -/
theorem byNameAmong_eq_byName? {order : List Language} {name : Text}
    (horder : order.Perm r.languages.values)
    (h : name ∈ r.names ∨ ∃! l, l ∈ r.languages.values ∧ l.answersTo name = true) :
    r.byNameAmong order name = r.byName? name := by
  rw [byName?_eq, byNameAmong, byNameAmong]
  rcases h with hname | hunique
  · obtain ⟨l, hl⟩ := Table.mem_keys_iff.1 hname
    rw [hl, Option.some_or, Option.some_or]
  · rw [find?_eq_of_unique horder hunique]

/-- Languages with different names make up a registry exactly if no extension is listed by two of
them, and in any order the same one. -/
theorem ofLanguages_perm (hnames : (ls.map (·.name)).Nodup) :
    ((∃ r, ofLanguages ls = .ok r) ↔
      ∀ l ∈ ls, ∀ l' ∈ ls, l ≠ l' → ∀ ext ∈ l.extensions, ext ∉ l'.extensions) ∧
    ∀ r ls', ofLanguages ls = .ok r → ls'.Perm ls →
      ∃ r', ofLanguages ls' = .ok r' ∧ r'.names = r.names ∧
        (∀ path, r'.detect? path = r.detect? path) ∧
        ∀ name, (name ∈ r.names ∨ ∃! l, l ∈ r.languages.values ∧ l.answersTo name = true) →
          r'.byName? name = r.byName? name ∧
          ∀ order, order.Perm r'.languages.values →
            r'.byNameAmong order name = r.byName? name := by
  constructor
  · rw [exists_ofLanguages_iff hnames]
    constructor
    · intro hpairwise l hl l' hl' hne
      exact hpairwise.forall hl hl' hne
    · exact (hnames.of_map _).pairwise_of_forall_ne
  · intro r ls' hok hperm
    have hnames' : (ls'.map (·.name)).Nodup := (hperm.map _).nodup_iff.2 hnames
    have hapart := (exists_ofLanguages_iff hnames).1 ⟨r, hok⟩
    obtain ⟨r', hok'⟩ :=
      (exists_ofLanguages_iff hnames').2 (hapart.perm hperm.symm Apart.symm)
    obtain rfl : r' = r := (holds_ofLanguages hnames' hok').eq (holds_ofLanguages hnames hok)
      fun l => hperm.mem_iff
    refine ⟨r', hok', rfl, fun _ => rfl, ?_⟩
    intro name hname
    exact ⟨rfl, fun order horder => byNameAmong_eq_byName? horder hname⟩

theorem Holds.mem_values_iff (h : r.Holds ls) : l ∈ r.languages.values ↔ l ∈ ls := by
  simp [Table.mem_values_iff, h.find?_iff]

def one : Language := { name := "One", extensions := ["a", "a"] }

def two : Language := { name := "Two", aliases := ["Deux"], extensions := ["b"] }

theorem ofLanguages_perm_swap :
    ([one, two].map (·.name)).Nodup ∧
      ∃ r r', ofLanguages [one, two] = .ok r ∧ ofLanguages [two, one] = .ok r' ∧
        r'.names = r.names ∧ r'.detect? "x.a" = r.detect? "x.a" ∧
        (∃! l, l ∈ r.languages.values ∧ l.answersTo "deux" = true) ∧
        r'.byName? "deux" = r.byName? "deux" := by
  have hnames : ([one, two].map (·.name)).Nodup := by decide
  obtain ⟨hiff, hperm⟩ := ofLanguages_perm hnames
  obtain ⟨r, hr⟩ : ∃ r, ofLanguages [one, two] = .ok r := by
    rw [hiff]
    simp [one, two]
  obtain ⟨r', hr', hlisted, hdetect, hnamed⟩ := hperm r [two, one] hr (.swap one two [])
  have hunique : ∃! l, l ∈ r.languages.values ∧ l.answersTo "deux" = true := by
    refine ⟨two, ⟨?_, by decide⟩, ?_⟩
    · rw [(holds_ofLanguages hnames hr).mem_values_iff]
      simp
    · rintro l ⟨hl, hanswers⟩
      rw [(holds_ofLanguages hnames hr).mem_values_iff, List.mem_cons, List.mem_singleton] at hl
      rcases hl with rfl | rfl
      · exact absurd hanswers (by decide)
      · rfl
  exact ⟨hnames, r, r', hr, hr', hlisted, hdetect _, hunique, (hnamed _ (.inr hunique)).1⟩

end Marginalia.Registry
