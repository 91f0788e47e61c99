import Marginalia.Table

/-! # Look-ups in tables

A look-up finds the entry of its key, and of a list of entries the last one. A table is told by its
look-ups. -/

namespace Marginalia.Table

variable {α : Type}

theorem mem_entries_iff {t : Table α} {key : Text} {value : α} :
    (key, value) ∈ t.entries ↔ t.find? key = some value := by
  obtain ⟨l, hascending⟩ := t
  change (key, value) ∈ l ↔ (l.find? (·.1 == key)).map (·.2) = some value
  induction l with
  | nil => simp
  | cons first rest ih =>
    obtain ⟨hfirst, hrest⟩ := List.pairwise_cons.1 hascending
    rw [List.mem_cons, List.find?_cons]
    by_cases hkey : first.1 = key
    · -- No later entry has the key of the first one.
      have hout : (key, value) ∉ rest := by
        intro hmem
        exact absurd (hfirst _ hmem) (hkey ▸ List.lt_irrefl _)
      simp only [hkey, BEq.rfl, Option.map_some, Option.some.injEq, hout, or_false]
      rw [Prod.ext_iff, hkey]
      exact ⟨fun h => h.2.symm, fun h => ⟨rfl, h.symm⟩⟩
    · have hne : (key, value) ≠ first := fun h => hkey (h ▸ rfl)
      simp only [hne, false_or, beq_false_of_ne hkey]
      exact ih hrest

/-- Tables with the same look-ups are equal: their entries are the same, and in the same order. -/
theorem eq_of_find?_eq {t u : Table α} (h : ∀ key, t.find? key = u.find? key) : t = u := by
  have hnodup (t : Table α) : t.entries.Nodup := by
    apply t.ascending.imp
    rintro a b hlt rfl
    exact List.lt_irrefl _ hlt
  have hperm : t.entries.Perm u.entries := by
    rw [List.perm_ext_iff_of_nodup (hnodup t) (hnodup u)]
    rintro ⟨key, value⟩
    rw [mem_entries_iff, mem_entries_iff, h]
  have hentries : t.entries = u.entries := by
    apply hperm.eq_of_pairwise _ t.ascending u.ascending
    intro a b _ _ hlt hgt
    exact absurd hgt (List.lt_asymm hlt)
  obtain ⟨_, _⟩ := t
  obtain ⟨_, _⟩ := u
  cases hentries
  rfl

theorem mem_values_iff {t : Table α} {value : α} :
    value ∈ t.values ↔ ∃ key, t.find? key = some value := by
  rw [values, List.mem_map]
  constructor
  · rintro ⟨⟨key, _⟩, hmem, rfl⟩
    exact ⟨key, mem_entries_iff.1 hmem⟩
  · rintro ⟨key, hkey⟩
    exact ⟨(key, value), mem_entries_iff.2 hkey, rfl⟩

theorem mem_keys_iff {t : Table α} {key : Text} :
    key ∈ t.keys ↔ ∃ value, t.find? key = some value := by
  rw [keys, List.mem_map]
  constructor
  · rintro ⟨⟨_, value⟩, hmem, rfl⟩
    exact ⟨value, mem_entries_iff.1 hmem⟩
  · rintro ⟨value, hvalue⟩
    exact ⟨(key, value), mem_entries_iff.2 hvalue, rfl⟩

theorem exists_of_find?_values {t : Table α} {p : α → Bool} {value : α}
    (h : t.values.find? p = some value) :
    p value = true ∧ ∃ key, t.find? key = some value ∧
      ∀ key' value', t.find? key' = some value' → key' < key → p value' = false := by
  refine ⟨List.find?_some h, ?_⟩
  rw [values, List.find?_map, Option.map_eq_some_iff] at h
  obtain ⟨⟨key, _⟩, hfind, rfl⟩ := h
  obtain ⟨_, front, back, hentries, hfront⟩ := List.find?_eq_some_iff_append.1 hfind
  refine ⟨key, mem_entries_iff.1 (List.mem_of_find?_eq_some hfind), fun key' value' hvalue' hlt => ?_⟩
  have hmem := mem_entries_iff.2 hvalue'
  rw [hentries, List.mem_append, List.mem_cons] at hmem
  -- An earlier entry does not satisfy `p`; the entry found and the later ones have no smaller key.
  rcases hmem with hmem | heq | hmem
  · simpa using hfront _ hmem
  · cases heq
    exact absurd hlt (List.lt_irrefl _)
  · have hascending := t.ascending
    rw [hentries, List.pairwise_append, List.pairwise_cons] at hascending
    exact absurd hlt (List.lt_asymm (hascending.2.1.1 _ hmem))

/-- Of the values that satisfy `p`, the one of the least key is found. -/
theorem find?_values_eq_some_iff {t : Table α} {p : α → Bool} {value : α} :
    t.values.find? p = some value ↔
      p value = true ∧ ∃ key, t.find? key = some value ∧
        ∀ key' value', t.find? key' = some value' → key' < key → p value' = false := by
  refine ⟨exists_of_find?_values, ?_⟩
  rintro ⟨hp, key, hkey, hleast⟩
  have hmem : value ∈ t.values := mem_values_iff.2 ⟨key, hkey⟩
  cases hfind : t.values.find? p with
  | none => exact absurd hp (List.find?_eq_none.1 hfind value hmem)
  | some found =>
    obtain ⟨hpfound, other, hother, hotherLeast⟩ := exists_of_find?_values hfind
    have hnlt : ¬ key < other := fun hlt => by simp [hotherLeast key value hkey hlt] at hp
    have hngt : ¬ other < key := fun hlt => by simp [hleast other found hother hlt] at hpfound
    have heq : key = other := List.le_antisymm (List.not_lt.1 hngt) (List.not_lt.1 hnlt)
    rw [heq, hother] at hkey
    rw [hkey]

theorem find?_foldl_insert (l : List (Text × α)) (t : Table α) (key : Text) :
    (l.foldl (fun t entry => t.insert entry.1 entry.2) t).find? key =
      ((l.reverse.find? (·.1 == key)).map (·.2)).or (t.find? key) := by
  induction l generalizing t with
  | nil => simp
  | cons first rest ih =>
    rw [List.foldl_cons, ih, List.reverse_cons, List.find?_append, find?_insert]
    cases rest.reverse.find? (·.1 == key) with
    | some entry => rfl
    | none => by_cases h : first.1 = key <;> simp [h]

/-- Of the entries of a key, the last one is found. -/
theorem find?_ofList (l : List (Text × α)) (key : Text) :
    (ofList l).find? key = (l.reverse.find? (·.1 == key)).map (·.2) := by
  rw [ofList, find?_foldl_insert, find?_empty, Option.or_none]

theorem mem_of_find?_ofList {l : List (Text × α)} {key : Text} {value : α}
    (h : (ofList l).find? key = some value) : (key, value) ∈ l := by
  rw [find?_ofList, Option.map_eq_some_iff] at h
  obtain ⟨⟨found, _⟩, hfind, rfl⟩ := h
  obtain rfl : found = key := by simpa using List.find?_some hfind
  exact List.mem_reverse.1 (List.mem_of_find?_eq_some hfind)

theorem exists_find?_ofList {l : List (Text × α)} {key : Text} {value : α}
    (h : (key, value) ∈ l) : ∃ value', (ofList l).find? key = some value' := by
  rw [find?_ofList, ← Option.isSome_iff_exists, Option.isSome_map, List.find?_isSome]
  exact ⟨_, List.mem_reverse.2 h, by simp⟩

/-- A value given to several keys is found by each of them. -/
theorem find?_foldl_insert_const (keys : List Text) (value : α) (t : Table α) (key : Text) :
    (keys.foldl (fun t key => t.insert key value) t).find? key =
      if key ∈ keys then some value else t.find? key := by
  induction keys generalizing t with
  | nil => simp
  | cons first rest ih =>
    rw [List.foldl_cons, ih, find?_insert]
    by_cases hrest : key ∈ rest
    · simp [hrest]
    · by_cases hfirst : first = key <;> simp [hrest, hfirst, Ne.symm]

end Marginalia.Table
