import Marginalia.Text.Lines
import Mathlib.Data.List.TakeWhile

/-! # Newlines around a text -/

namespace Marginalia.Text

def isNewline (c : Char) : Bool := c == '\n'

def Newlines (t : Text) : Prop := ∀ c ∈ t, isNewline c = true

def dropNewlines (t : Text) : Text := t.dropWhile isNewline

def dropEndNewlines (t : Text) : Text := dropEndWhile isNewline t

theorem newlines_nil : Newlines [] := by
  intro c hc
  cases hc

theorem newlines_singleton : Newlines ['\n'] := by
  intro c hc
  rw [List.mem_singleton.1 hc]
  rfl

theorem Newlines.append {s t : Text} (hs : Newlines s) (ht : Newlines t) : Newlines (s ++ t) := by
  intro c hc
  exact (List.mem_append.1 hc).elim (hs c) (ht c)

theorem newlines_cons {c : Char} {t : Text} : Newlines (c :: t) ↔ c = '\n' ∧ Newlines t := by
  simp [Newlines, isNewline]

theorem exists_dropNewlines (t : Text) :
    ∃ run, Newlines run ∧ t = run ++ dropNewlines t ∧ (dropNewlines t).head? ≠ some '\n' := by
  refine ⟨t.takeWhile isNewline, ?_, List.takeWhile_append_dropWhile.symm, ?_⟩
  · intro c hc
    exact List.all_eq_true.1 List.all_takeWhile c hc
  · intro hhead
    have hne := List.head?_dropWhile_not isNewline t
    rw [← dropNewlines, hhead] at hne
    exact absurd hne (by decide)

theorem exists_dropEndNewlines (t : Text) :
    ∃ run, Newlines run ∧ t = dropEndNewlines t ++ run ∧
      (dropEndNewlines t).getLast? ≠ some '\n' := by
  refine ⟨(t.reverse.takeWhile isNewline).reverse, ?_, ?_, ?_⟩
  · intro c hc
    exact List.all_eq_true.1 List.all_takeWhile c (List.mem_reverse.1 hc)
  · rw [dropEndNewlines, dropEndWhile, ← List.reverse_append, List.takeWhile_append_dropWhile,
      List.reverse_reverse]
  · intro hlast
    have hne := List.head?_dropWhile_not isNewline t.reverse
    rw [dropEndNewlines, dropEndWhile, List.getLast?_reverse] at hlast
    rw [hlast] at hne
    exact absurd hne (by decide)

theorem size_dropEndNewlines_le (t : Text) : size (dropEndNewlines t) ≤ size t := by
  obtain ⟨run, _, hrun, _⟩ := exists_dropEndNewlines t
  calc
    size (dropEndNewlines t) ≤ size (dropEndNewlines t ++ run) := by
      rw [size_append]
      exact Nat.le_add_right _ _
    _ = size t := by rw [← hrun]

theorem dropNewlines_append {s : Text} (hs : Newlines s) (t : Text) :
    dropNewlines (s ++ t) = dropNewlines t := List.dropWhile_append_of_pos hs

theorem dropNewlines_of_newlines {t : Text} (h : Newlines t) : dropNewlines t = [] :=
  List.dropWhile_eq_nil_iff.2 h

theorem dropNewlines_of_head {t : Text} (h : t.head? ≠ some '\n') : dropNewlines t = t := by
  cases t with
  | nil => rfl
  | cons c t =>
    refine List.dropWhile_cons_of_neg fun hc => h ?_
    rw [isNewline, beq_iff_eq] at hc
    rw [hc, List.head?_cons]

theorem dropNewlines_append_of_not {s : Text} (hs : ¬ Newlines s) (t : Text) :
    dropNewlines (s ++ t) = dropNewlines s ++ t := by
  rw [dropNewlines, List.dropWhile_append, if_neg]
  · rfl
  · intro hempty
    exact hs (List.dropWhile_eq_nil_iff.1 (List.isEmpty_iff.1 hempty))

theorem dropEndNewlines_of_newlines {t : Text} (h : Newlines t) : dropEndNewlines t = [] := by
  rw [dropEndNewlines, dropEndWhile, List.reverse_eq_nil_iff, List.dropWhile_eq_nil_iff]
  intro c hc
  exact h c (List.mem_reverse.1 hc)

theorem dropEndNewlines_cons {c : Char} {t : Text} (h : ¬ Newlines (c :: t)) :
    dropEndNewlines (c :: t) = c :: dropEndNewlines t := by
  rw [dropEndNewlines, dropEndNewlines, dropEndWhile, dropEndWhile, List.reverse_cons,
    List.dropWhile_append]
  split
  · rename_i hempty
    have ht : Newlines t := fun d hd =>
      List.dropWhile_eq_nil_iff.1 (List.isEmpty_iff.1 hempty) d (List.mem_reverse.2 hd)
    have hc : isNewline c = false := by
      rw [newlines_cons, not_and_or] at h
      simpa [isNewline] using h.resolve_right (not_not_intro ht)
    rw [List.dropWhile_cons_of_neg (by simp [hc]), List.isEmpty_iff.1 hempty]
    rfl
  · rw [List.reverse_append]
    rfl

theorem dropEndNewlines_append {t : Text} (ht : Newlines t) (s : Text) :
    dropEndNewlines (s ++ t) = dropEndNewlines s := by
  rw [dropEndNewlines, dropEndWhile, List.reverse_append, List.dropWhile_append_of_pos]
  · rfl
  · intro c hc
    exact ht c (List.mem_reverse.1 hc)

theorem dropEndNewlines_of_getLast {t : Text} (h : t.getLast? ≠ some '\n') :
    dropEndNewlines t = t := by
  have hreverse : dropNewlines t.reverse = t.reverse :=
    dropNewlines_of_head (by rwa [List.head?_reverse])
  rw [dropEndNewlines, dropEndWhile, ← dropNewlines, hreverse, List.reverse_reverse]

end Marginalia.Text
