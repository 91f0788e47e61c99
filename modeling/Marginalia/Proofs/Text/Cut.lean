import Marginalia.Proofs.Text.Lines
import Mathlib.Order.Bounds.Defs

/-! # Places in a text

A place is a boundary when it lies between two characters, and a line start when the text before it
ends a line. Slices between such places are the texts that stand there. A cut falls on the least
boundary at or after its offset (`isLeast_size_upTo`).
-/

namespace Marginalia.Text

def Boundary (t : Text) (pos : Nat) : Prop := ∃ a b : Text, t = a ++ b ∧ size a = pos

def LineStart (t : Text) (pos : Nat) : Prop :=
  ∃ a b : Text, t = a ++ b ∧ size a = pos ∧ EndsLine a

theorem boundary_zero (t : Text) : Boundary t 0 := ⟨[], t, rfl, rfl⟩

theorem boundary_size (t : Text) : Boundary t (size t) := ⟨t, [], (List.append_nil t).symm, rfl⟩

theorem LineStart.boundary {t : Text} {pos : Nat} (h : LineStart t pos) : Boundary t pos := by
  obtain ⟨a, b, ht, hpos, _⟩ := h
  exact ⟨a, b, ht, hpos⟩

theorem Boundary.le_size {t : Text} {pos : Nat} (h : Boundary t pos) : pos ≤ size t := by
  obtain ⟨a, b, rfl, rfl⟩ := h
  rw [size_append]
  exact Nat.le_add_right _ _

theorem upTo_size_append (a b : Text) : upTo (size a) (a ++ b) = a :=
  congrArg Prod.fst (cut_size_append a b)

theorem after_size_append (a b : Text) : after (size a) (a ++ b) = b :=
  congrArg Prod.snd (cut_size_append a b)

theorem slice_size_append (a m b : Text) :
    slice (size a) (size a + size m) (a ++ (m ++ b)) = m := by
  rw [slice, after_size_append, Nat.add_sub_cancel_left, upTo_size_append]

/-- Of two cuts of one text, the earlier one cuts what stands before the later one. -/
theorem exists_between {a b c d : Text} (h : a ++ b = c ++ d) (hle : size a ≤ size c) :
    ∃ m, c = a ++ m ∧ b = m ++ d := by
  rcases List.append_eq_append_iff.1 h with ⟨m, hc, hb⟩ | ⟨m, ha, hd⟩
  · exact ⟨m, hc, hb⟩
  · have hm : m = [] := by
      rw [← size_eq_zero_iff]
      rw [ha, size_append] at hle
      omega
    subst hm
    exact ⟨[], by simpa using ha.symm, by simpa using hd.symm⟩

theorem exists_slice {t : Text} {start stop : Nat} (hstart : Boundary t start)
    (hstop : Boundary t stop) (hle : start ≤ stop) :
    ∃ a m b, t = a ++ (m ++ b) ∧ size a = start ∧ size (a ++ m) = stop ∧
      slice start stop t = m := by
  obtain ⟨a, b, ht, rfl⟩ := hstart
  obtain ⟨c, d, ht', rfl⟩ := hstop
  obtain ⟨m, rfl, rfl⟩ := exists_between (ht.symm.trans ht') hle
  refine ⟨a, m, d, ht, rfl, rfl, ?_⟩
  rw [ht, size_append, slice_size_append]

theorem slice_amid {row : Text} {start stop : Nat} (hstart : Boundary row start)
    (hstop : Boundary row stop) (hle : start ≤ stop) (before after : Text) :
    slice (size before + start) (size before + stop) (before ++ (row ++ after)) =
      slice start stop row := by
  obtain ⟨a, m, b, hrow, rfl, rfl, hslice⟩ := exists_slice hstart hstop hle
  have happend : before ++ (row ++ after) = (before ++ a) ++ (m ++ (b ++ after)) := by
    rw [hrow]
    simp only [List.append_assoc]
  rw [hslice, happend, size_append, ← Nat.add_assoc, ← size_append, slice_size_append]

theorem slice_size {t : Text} {start : Nat} (h : Boundary t start) :
    slice start (size t) t = after start t := by
  obtain ⟨a, b, rfl, rfl⟩ := h
  have hslice := slice_size_append a b []
  rw [List.append_nil] at hslice
  rw [size_append, hslice, after_size_append]

theorem after_eq_slice_append {t : Text} {start stop : Nat} (hstart : Boundary t start)
    (hstop : Boundary t stop) (hle : start ≤ stop) :
    after start t = slice start stop t ++ after stop t := by
  obtain ⟨a, m, b, ht, rfl, hm, hslice⟩ := exists_slice hstart hstop hle
  rw [hslice, ← hm, ht, after_size_append, ← List.append_assoc, after_size_append]

theorem slice_eq_nil_iff {t : Text} {start stop : Nat} (hstart : Boundary t start)
    (hstop : Boundary t stop) (hle : start ≤ stop) : slice start stop t = [] ↔ start = stop := by
  obtain ⟨a, m, b, ht, rfl, rfl, hslice⟩ := exists_slice hstart hstop hle
  rw [hslice, size_append, ← size_eq_zero_iff]
  omega

theorem LineStart.endsLine_upTo {t : Text} {pos : Nat} (h : LineStart t pos) :
    EndsLine (upTo pos t) := by
  obtain ⟨a, b, rfl, rfl, ha⟩ := h
  rwa [upTo_size_append]

theorem LineStart.endsLine_slice {t : Text} {start stop : Nat} (hstop : LineStart t stop)
    (hstart : Boundary t start) (hle : start ≤ stop) : EndsLine (slice start stop t) := by
  obtain ⟨a, m, b, ht, _, hm, hslice⟩ := exists_slice hstart hstop.boundary hle
  rw [hslice]
  have hupTo := hstop.endsLine_upTo
  rw [ht, ← hm, ← List.append_assoc, upTo_size_append] at hupTo
  exact hupTo.of_append

theorem EndsLine.after {t : Text} (h : EndsLine t) (pos : Nat) : EndsLine (after pos t) := by
  rw [← upTo_append_after pos t] at h
  exact h.of_append

theorem boundary_iff {t : Text} {pos : Nat} : Boundary t pos ↔ size (upTo pos t) = pos := by
  constructor
  · rintro ⟨a, b, rfl, rfl⟩
    rw [upTo_size_append]
  · intro h
    exact ⟨upTo pos t, after pos t, (upTo_append_after pos t).symm, h⟩

/-! ## The place of a cut -/

theorem boundary_upTo (t : Text) (pos : Nat) : Boundary t (size (upTo pos t)) :=
  ⟨upTo pos t, after pos t, (upTo_append_after pos t).symm, rfl⟩

theorem upTo_zero (t : Text) : upTo 0 t = [] := congrArg Prod.fst (cut_zero t)

theorem upTo_cons {c : Char} {pos : Nat} (hpos : pos ≠ 0) (t : Text) :
    upTo pos (c :: t) = c :: upTo (pos - c.utf8Size) t := by
  rw [upTo, cut, if_neg hpos]
  rfl

theorem min_le_size_upTo (t : Text) (pos : Nat) : min pos (size t) ≤ size (upTo pos t) := by
  induction t generalizing pos with
  | nil => exact Nat.min_le_right _ _
  | cons c t ih =>
    by_cases hpos : pos = 0
    · subst hpos
      exact Nat.le_trans (Nat.min_le_left _ _) (Nat.zero_le _)
    · have hrest := ih (pos - c.utf8Size)
      rw [upTo_cons hpos, size_cons, size_cons]
      omega

/-- A cut passes over no boundary at or after its offset. -/
theorem size_upTo_le {t : Text} {pos next : Nat} (h : Boundary t next)
    (hle : min pos (size t) ≤ next) : size (upTo pos t) ≤ next := by
  obtain ⟨a, b, rfl, rfl⟩ := h
  induction a generalizing pos with
  | nil =>
    have hempty : upTo pos ([] ++ b) = [] := by
      rcases Nat.min_eq_zero_iff.1 (Nat.le_zero.1 hle) with hpos | hsize
      · rw [hpos, upTo_zero]
      · exact congrArg (upTo pos) (size_eq_zero_iff.1 hsize)
    exact Nat.le_of_eq (congrArg size hempty)
  | cons c a ih =>
    by_cases hpos : pos = 0
    · rw [hpos, upTo_zero]
      exact Nat.zero_le _
    · rw [List.cons_append, size_cons, size_cons] at hle
      have hrest : size (upTo (pos - c.utf8Size) (a ++ b)) ≤ size a := ih (by omega)
      rw [List.cons_append, upTo_cons hpos, size_cons, size_cons]
      exact Nat.add_le_add_left hrest _

/-- Offsets past the end count as the end. -/
theorem isLeast_size_upTo (t : Text) (pos : Nat) :
    IsLeast {next | Boundary t next ∧ min pos (size t) ≤ next} (size (upTo pos t)) :=
  ⟨⟨boundary_upTo t pos, min_le_size_upTo t pos⟩, fun _ h => size_upTo_le h.1 h.2⟩

/-! ## What is left after a place -/

theorem length_after_le (t : Text) (pos : Nat) : (after pos t).length ≤ t.length := by
  have hlength := congrArg List.length (upTo_append_after pos t)
  rw [List.length_append] at hlength
  omega

theorem length_after_anti (t : Text) {pos pos' : Nat} (hle : pos ≤ pos') :
    (after pos' t).length ≤ (after pos t).length := by
  induction t generalizing pos pos' with
  | nil => exact Nat.le_refl _
  | cons c t ih =>
    by_cases hpos : pos = 0
    · subst hpos
      exact length_after_le (c :: t) pos'
    · have hpos' : pos' ≠ 0 := by omega
      rw [after, after, cut, cut, if_neg hpos, if_neg hpos']
      exact ih (Nat.sub_le_sub_right hle _)

theorem length_after_lt {t : Text} {pos pos' : Nat} (hpos : Boundary t pos)
    (hpos' : Boundary t pos') (hlt : pos < pos') :
    (after pos' t).length < (after pos t).length := by
  obtain ⟨a, m, b, ht, rfl, rfl, _⟩ := exists_slice hpos hpos' (Nat.le_of_lt hlt)
  rw [ht, after_size_append, ← List.append_assoc, after_size_append, List.length_append]
  have hm : m ≠ [] := by
    rintro rfl
    simp at hlt
  have hlength := List.length_pos_iff.2 hm
  omega

end Marginalia.Text
