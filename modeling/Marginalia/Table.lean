import Marginalia.Text.Basic

/-! # Tables keyed by text

A table lists its entries in ascending order of their keys, one entry to a key. The order is that
of code points, so two tables with the same look-ups are equal.
-/

namespace Marginalia

structure Table (α : Type) where
  entries : List (Text × α)
  ascending : entries.Pairwise fun a b => a.1 < b.1
  deriving DecidableEq

namespace Table

variable {α : Type}

def insertEntry (key : Text) (value : α) : List (Text × α) → List (Text × α)
  | [] => [(key, value)]
  | entry :: rest =>
    if key < entry.1 then (key, value) :: entry :: rest
    else if key = entry.1 then (key, value) :: rest
    else entry :: insertEntry key value rest

theorem mem_insertEntry {key : Text} {value : α} {entry : Text × α} {l : List (Text × α)}
    (h : entry ∈ insertEntry key value l) : entry = (key, value) ∨ entry ∈ l := by
  induction l with
  | nil => simpa [insertEntry] using h
  | cons first rest ih =>
    rw [insertEntry] at h
    split at h
    · simpa using h
    · split at h
      · rcases List.mem_cons.1 h with h | h
        · exact .inl h
        · exact .inr (List.mem_cons_of_mem _ h)
      · rcases List.mem_cons.1 h with h | h
        · exact .inr (h ▸ List.mem_cons_self)
        · exact (ih h).imp id (List.mem_cons_of_mem _)

theorem lt_of_not_lt_of_ne {s t : Text} (hst : ¬ s < t) (hne : s ≠ t) : t < s := by
  rcases Decidable.em (t < s) with h | h
  · exact h
  · exact absurd (List.le_antisymm (List.not_lt.1 h) (List.not_lt.1 hst)) hne

theorem insertEntry_ascending (key : Text) (value : α) {l : List (Text × α)}
    (h : l.Pairwise fun a b => a.1 < b.1) :
    (insertEntry key value l).Pairwise fun a b => a.1 < b.1 := by
  induction l with
  | nil => simp [insertEntry]
  | cons first rest ih =>
    obtain ⟨hfirst, hrest⟩ := List.pairwise_cons.1 h
    rw [insertEntry]
    split
    · rename_i hlt
      refine List.pairwise_cons.2 ⟨fun b hb => ?_, h⟩
      rcases List.mem_cons.1 hb with rfl | hb
      · exact hlt
      · exact List.lt_trans hlt (hfirst b hb)
    · rename_i hlt
      split
      · rename_i heq
        exact List.pairwise_cons.2 ⟨fun b hb => by simpa [heq] using hfirst b hb, hrest⟩
      · rename_i hne
        refine List.pairwise_cons.2 ⟨fun b hb => ?_, ih hrest⟩
        rcases mem_insertEntry hb with rfl | hb
        · exact lt_of_not_lt_of_ne hlt hne
        · exact hfirst b hb

def empty : Table α := ⟨[], .nil⟩

instance : EmptyCollection (Table α) := ⟨empty⟩

instance : Inhabited (Table α) := ⟨empty⟩

/-- Binds `key` to `value`, in place of an older binding. -/
def insert (t : Table α) (key : Text) (value : α) : Table α :=
  ⟨insertEntry key value t.entries, insertEntry_ascending key value t.ascending⟩

def find? (t : Table α) (key : Text) : Option α :=
  (t.entries.find? fun entry => entry.1 == key).map (·.2)

def keys (t : Table α) : List Text := t.entries.map (·.1)

def values (t : Table α) : List α := t.entries.map (·.2)

/-- Adds the entries of `u`, which win over those of `t`. -/
def extend (t u : Table α) : Table α := u.entries.foldl (fun t entry => t.insert entry.1 entry.2) t

/-- Inserts the entries in order, so that the last entry of a key wins. -/
def ofList (l : List (Text × α)) : Table α :=
  l.foldl (fun t entry => t.insert entry.1 entry.2) ∅

@[simp] theorem find?_empty (key : Text) : (∅ : Table α).find? key = none := rfl

theorem find?_insertEntry (key other : Text) (value : α) (l : List (Text × α)) :
    (insertEntry key value l).find? (·.1 == other) =
      if key = other then some (key, value) else l.find? (·.1 == other) := by
  induction l with
  | nil => by_cases h : key = other <;> simp [insertEntry, h]
  | cons first rest ih =>
    rw [insertEntry]
    split
    · by_cases h : key = other <;> simp [List.find?_cons, h]
    · split
      · rename_i heq
        by_cases h : key = other
        · simp [h]
        · simp [h, beq_false_of_ne (heq ▸ h : first.1 ≠ other)]
      · rename_i hne
        by_cases h : first.1 = other
        · have hk : key ≠ other := fun hk => hne (hk.trans h.symm)
          simp [h, hk]
        · simp [beq_false_of_ne h, ih]

theorem find?_insert (t : Table α) (key other : Text) (value : α) :
    (t.insert key value).find? other = if key = other then some value else t.find? other := by
  rw [find?, insert, find?_insertEntry, find?]
  split <;> rfl

end Table

end Marginalia
