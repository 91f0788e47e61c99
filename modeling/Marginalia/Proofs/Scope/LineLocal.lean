import Marginalia.Proofs.Regex.Row
import Marginalia.Proofs.Scope.Cuts

/-! # Scopes that begin lines

A rule is line-local if it matches lines, each for itself (`LineLocal`). With such rules a search
finds the first line that any of them matches, for the first rule that does (`findFirst_eq`).
-/

namespace Marginalia

open Text (bareLine isBlank located rowsFrom size)

def ScopeMatch.moved (offset : Nat) (m : ScopeMatch) : ScopeMatch :=
  ⟨offset + m.start, offset + m.stop, m.label⟩

namespace ScopeRule

/-- What `f` makes of the first of some lines that it makes anything of. -/
def firstIn (f : Text → Option ScopeMatch) (rows : List (Nat × Text)) : Option ScopeMatch :=
  rows.findSome? fun row => (f row.2).map (.moved row.1)

/-- Whether and what the rule matches depends on single lines: a search takes the first line from an
offset on that is matched when it stands by itself, and what is matched of it. A match starts its
line, and no blank line has one. -/
structure LineLocal (rule : ScopeRule) : Prop where
  findAt_eq : ∀ (t : Text) (offset : Nat),
    rule.findAt t offset = firstIn (fun row => rule.findAt row 0) (rowsFrom offset t)
  start_eq : ∀ (row : Text) (m : ScopeMatch), '\n' ∉ row → rule.findAt row 0 = some m → m.start = 0
  blank : ∀ row : Text, '\n' ∉ row → isBlank row = true → rule.findAt row 0 = none

/-- What the first rule to match a line makes of it. -/
def matchRow (rules : List ScopeRule) (row : Text) : Option ScopeMatch :=
  rules.findSome? fun rule => rule.findAt row 0

section Search

variable {rules : List ScopeRule}

theorem findAt_row {rule : ScopeRule} (h : rule.pattern.pattern.LineBound) {row : Text}
    (hrow : '\n' ∉ row) :
    rule.findAt row 0 = (rule.pattern.pattern.matchHere (.origin row)).map fun m =>
      ⟨m.start, m.stop, Text.trim ((m.group? row 1).getD (m.text row))⟩ := by
  rw [findAt, Regex.findAt_row h hrow]
  split
  · rename_i hsize
    have hnil : row = [] := Text.size_eq_zero_iff.1 (Nat.le_zero.1 hsize)
    rw [hnil, h.matchHere_of_isBlank rfl]
    rfl
  · rfl

theorem lineLocal_of_lineBound {rule : ScopeRule} (h : rule.pattern.pattern.LineBound) :
    rule.LineLocal := by
  constructor
  · intro t offset
    rw [findAt]
    split
    · rename_i hsize
      rw [Text.rowsFrom_eq_nil hsize]
      rfl
    · rename_i hsize
      rw [Regex.findAt_eq_findSome? h (by omega), List.map_findSome?, firstIn,
        ← List.head?_filterMap, ← List.head?_filterMap]
      refine congrArg List.head? (List.filterMap_congr fun r hr => ?_)
      obtain ⟨before, after, ht, hsize, _, hrow⟩ := Text.exists_of_mem_rowsFrom hr
      have hfound := Regex.findAt_row h hrow
      rw [findAt_row h hrow, Function.comp_apply]
      cases hm : rule.pattern.pattern.matchHere (.origin r.2) with
      | none => rfl
      | some m =>
        rw [hm] at hfound
        simp only [Option.map_some, ht, ← hsize, Regex.group?_moved hfound,
          Regex.text_moved hfound]
        rfl
  · intro row m hrow hm
    rw [findAt_row h hrow] at hm
    obtain ⟨found, hfound, rfl⟩ := Option.map_eq_some_iff.1 hm
    obtain ⟨u, _, rfl⟩ := Option.map_eq_some_iff.1 hfound
    rfl
  · intro row hrow hblank
    rw [findAt_row h hrow, h.matchHere_of_isBlank hblank]
    rfl

/-- Matches that start lines, and are therefore ordered as the lines are. -/
def StartsRows (f : Text → Option ScopeMatch) (rows : List (Nat × Text)) : Prop :=
  ∀ row ∈ rows, ∀ m ∈ f row.2, m.start = 0

theorem exists_of_firstIn {f : Text → Option ScopeMatch} {rows : List (Nat × Text)}
    (hf : StartsRows f rows) {m : ScopeMatch} (h : firstIn f rows = some m) :
    ∃ row ∈ rows, m.start = row.1 := by
  obtain ⟨row, hrow, hm⟩ := List.exists_of_findSome?_eq_some h
  obtain ⟨found, hfound, rfl⟩ := Option.map_eq_some_iff.1 hm
  refine ⟨row, hrow, ?_⟩
  rw [ScopeMatch.moved, hf row hrow found hfound, Nat.add_zero]

theorem firstIn_cons (f : Text → Option ScopeMatch) (row : Nat × Text) (rows : List (Nat × Text)) :
    firstIn f (row :: rows) = ((f row.2).map (.moved row.1)).or (firstIn f rows) := by
  rw [firstIn, List.findSome?_cons]
  cases f row.2 <;> rfl

theorem earlier_of_le {m : ScopeMatch} {found : Option ScopeMatch}
    (h : ∀ b ∈ found, m.start ≤ b.start) : earlier (some m) found = some m := by
  cases found with
  | none => rfl
  | some b => exact if_neg (Nat.not_lt.2 (h b rfl))

theorem earlier_of_lt {m : ScopeMatch} {best : Option ScopeMatch}
    (h : ∀ a ∈ best, m.start < a.start) : earlier best (some m) = some m := by
  cases best with
  | none => rfl
  | some a => exact if_pos (h a rfl)

/-- The earlier one of two first matches is the first match of either kind. -/
theorem earlier_firstIn {f g : Text → Option ScopeMatch} {rows : List (Nat × Text)}
    (hrows : rows.Pairwise fun r r' => r.1 < r'.1) (hf : StartsRows f rows)
    (hg : StartsRows g rows) :
    earlier (firstIn f rows) (firstIn g rows) = firstIn (fun row => (f row).or (g row)) rows := by
  induction rows with
  | nil => rfl
  | cons row rows ih =>
    obtain ⟨hlater, hrows⟩ := List.pairwise_cons.1 hrows
    obtain ⟨hfrow, hfrows⟩ := List.forall_mem_cons.1 hf
    obtain ⟨hgrow, hgrows⟩ := List.forall_mem_cons.1 hg
    rw [firstIn_cons f, firstIn_cons fun row => (f row).or (g row)]
    cases hfm : f row.2 with
    | some m =>
      apply earlier_of_le
      intro b hb
      obtain ⟨found, hfound, hstart⟩ := exists_of_firstIn hg hb
      have hm : m.start = 0 := hfrow m hfm
      rw [ScopeMatch.moved, hm, hstart]
      rcases List.mem_cons.1 hfound with rfl | hfound
      · exact Nat.le_refl _
      · exact Nat.le_of_lt (hlater found hfound)
    | none =>
      rw [firstIn_cons g]
      cases hgm : g row.2 with
      | some m =>
        apply earlier_of_lt
        intro a ha
        obtain ⟨found, hfound, hstart⟩ := exists_of_firstIn hfrows ha
        have hm : m.start = 0 := hgrow m hgm
        rw [ScopeMatch.moved, hm, hstart]
        exact hlater found hfound
      | none => exact ih hrows hfrows hgrows

theorem matchRow_cons (rule : ScopeRule) (rules : List ScopeRule) (row : Text) :
    matchRow (rule :: rules) row = (rule.findAt row 0).or (matchRow rules row) := by
  rw [matchRow, List.findSome?_cons]
  cases rule.findAt row 0 <;> rfl

theorem findFirst_eq (hrules : ∀ rule ∈ rules, rule.LineLocal) (t : Text) (offset : Nat) :
    findFirst rules t offset = firstIn (matchRow rules) (rowsFrom offset t) := by
  have hrows : (rowsFrom offset t).Pairwise fun r r' => r.1 < r'.1 :=
    (Text.pairwise_located 0 t).filter _
  have hnewline : ∀ row ∈ rowsFrom offset t, '\n' ∉ row.2 := by
    intro row hrow
    obtain ⟨_, _, _, _, _, hrow⟩ := Text.exists_of_mem_rowsFrom hrow
    exact hrow
  suffices hfold : ∀ f, StartsRows f (rowsFrom offset t) →
      rules.foldl (fun best rule => earlier best (rule.findAt t offset))
          (firstIn f (rowsFrom offset t)) =
        firstIn (fun row => (f row).or (matchRow rules row)) (rowsFrom offset t) by
    have hnone : firstIn (fun _ => none) (rowsFrom offset t) = none := by
      simp [firstIn]
    have h := hfold (fun _ => none) fun _ _ _ hm => by cases hm
    simp only [hnone, Option.none_or] at h
    exact h
  induction rules with
  | nil =>
    intro f _
    simp [matchRow]
  | cons rule rules ih =>
    rw [List.forall_mem_cons] at hrules
    intro f hf
    have hrule : StartsRows (fun row => rule.findAt row 0) (rowsFrom offset t) :=
      fun row hrow m hm => hrules.1.start_eq row.2 m (hnewline row hrow) hm
    have hboth : StartsRows (fun row => (f row).or (rule.findAt row 0)) (rowsFrom offset t) := by
      intro row hrow m hm
      rcases Option.or_eq_some_iff.1 hm with hm | ⟨_, hm⟩
      · exact hf row hrow m hm
      · exact hrule row hrow m hm
    rw [List.foldl_cons, hrules.1.findAt_eq, earlier_firstIn hrows hf hrule, ih hrules.2 _ hboth]
    simp only [matchRow_cons, Option.or_assoc]

theorem bounds_of_matchRow (hrules : ∀ rule ∈ rules, rule.LineLocal) {row : Text}
    (hrow : '\n' ∉ row) {m : ScopeMatch} (h : matchRow rules row = some m) :
    m.start = 0 ∧ m.stop ≤ size row := by
  obtain ⟨rule, hrule, hm⟩ := List.exists_of_findSome?_eq_some h
  exact ⟨(hrules rule hrule).start_eq row m hrow hm, (boundary_of_findAt hm).2.1.le_size⟩

theorem matchRow_of_isBlank (hrules : ∀ rule ∈ rules, rule.LineLocal) {row : Text}
    (hrow : '\n' ∉ row) (hblank : isBlank row = true) : matchRow rules row = none := by
  rw [matchRow, List.findSome?_eq_none_iff]
  intro rule hrule
  exact (hrules rule hrule).blank row hrow hblank

theorem le_start_of_firstIn {f : Text → Option ScopeMatch} {pos : Nat} {ls : List Text}
    {m : ScopeMatch} (h : firstIn f (located pos ls) = some m) : pos ≤ m.start := by
  obtain ⟨row, hrow, hm⟩ := List.exists_of_findSome?_eq_some h
  obtain ⟨found, _, rfl⟩ := Option.map_eq_some_iff.1 hm
  exact Nat.le_trans (Text.le_of_mem_located hrow) (Nat.le_add_right _ _)

/-- The lines before the first one that is matched, or all of them. -/
theorem exists_passed {f : Text → Option ScopeMatch} (pos : Nat) {ls : List Text}
    (hf : ∀ line ∈ ls, ∀ m ∈ f (bareLine line), m.start = 0) :
    ∃ passed rest, ls = passed ++ rest ∧ (∀ line ∈ passed, f (bareLine line) = none) ∧
      match firstIn f (located pos ls) with
      | none => rest = []
      | some m => m.start = pos + size passed.flatten ∧
        ∃ line later own, rest = line :: later ∧ f (bareLine line) = some own ∧
          m.label = own.label := by
  induction ls generalizing pos with
  | nil => exact ⟨[], [], rfl, nofun, rfl⟩
  | cons line ls ih =>
    rw [List.forall_mem_cons] at hf
    rw [located, firstIn_cons]
    cases hm : f (bareLine line) with
    | some m =>
      exact ⟨[], line :: ls, rfl, nofun, by simp [ScopeMatch.moved, hf.1 m hm],
        line, ls, m, rfl, hm, rfl⟩
    | none =>
      obtain ⟨passed, rest, rfl, hpassed, hfound⟩ := ih (pos + size line) hf.2
      refine ⟨line :: passed, rest, rfl, List.forall_mem_cons.2 ⟨hm, hpassed⟩, ?_⟩
      rw [List.flatten_cons, Text.size_append, ← Nat.add_assoc]
      exact hfound

end Search

end ScopeRule

end Marginalia
