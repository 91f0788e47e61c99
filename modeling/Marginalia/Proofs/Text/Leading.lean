import Mathlib.Data.List.Basic

/-! # Leading characters and runs

A text, or any list, falls in just one way into its leading members of a kind and a rest that does
not go on with another one. Hence there is one way only to tell the maximal runs of its members of
that kind (`Runs.unique`).
-/

namespace Marginalia.Text

variable {α : Type} {p : α → Bool} {run run' tail tail' : List α}

theorem exists_leading (p : α → Bool) (t : List α) :
    ∃ run tail, t = run ++ tail ∧ (∀ c ∈ run, p c = true) ∧ tail.head?.any p = false := by
  refine ⟨t.takeWhile p, t.dropWhile p, List.takeWhile_append_dropWhile.symm,
    List.all_eq_true.1 List.all_takeWhile, ?_⟩
  have hnot := List.head?_dropWhile_not p t
  cases hhead : (t.dropWhile p).head? with
  | none => rfl
  | some c =>
    rw [hhead] at hnot
    exact hnot

theorem takeWhile_leading (hrun : ∀ c ∈ run, p c = true) (htail : tail.head?.any p = false) :
    (run ++ tail).takeWhile p = run ∧ (run ++ tail).dropWhile p = tail := by
  rw [List.takeWhile_append_of_pos hrun, List.dropWhile_append_of_pos hrun]
  cases tail with
  | nil => exact ⟨List.append_nil run, rfl⟩
  | cons c tail =>
    have hc : p c = false := htail
    simp [hc]

theorem leading_inj (hrun : ∀ c ∈ run, p c = true) (hrun' : ∀ c ∈ run', p c = true)
    (htail : tail.head?.any p = false) (htail' : tail'.head?.any p = false)
    (h : run ++ tail = run' ++ tail') : run = run' ∧ tail = tail' := by
  obtain ⟨htake, hdrop⟩ := takeWhile_leading hrun htail
  obtain ⟨htake', hdrop'⟩ := takeWhile_leading hrun' htail'
  exact ⟨htake.symm.trans (h ▸ htake'), hdrop.symm.trans (h ▸ hdrop')⟩

/-! ## Maximal runs -/

/-- The maximal runs of members of a kind, in order. What follows a run does not go on with it, and
all members between two runs are of another kind. -/
inductive Runs (p : α → Bool) : List α → List (List α) → Prop
  | nil : Runs p [] []
  | skip {a rest runs} : p a = false → Runs p rest runs → Runs p (a :: rest) runs
  | run {run rest runs} : run ≠ [] → (∀ a ∈ run, p a = true) → rest.head?.any p = false →
      Runs p rest runs → Runs p (run ++ rest) (run :: runs)

theorem of_cons_eq_run_append {a : α} {rest : List α} (hne : run ≠ [])
    (hrun : ∀ b ∈ run, p b = true) (h : a :: rest = run ++ tail) : p a = true := by
  obtain ⟨b, run, rfl⟩ := List.exists_cons_of_ne_nil hne
  rw [List.head_eq_of_cons_eq h]
  exact hrun b List.mem_cons_self

theorem Runs.unique {l : List α} {runs runs' : List (List α)} (h : Runs p l runs)
    (h' : Runs p l runs') : runs = runs' := by
  -- Cases on `h'` need the list as a variable: no append unifies with `[]` or a `cons`.
  induction h generalizing runs' with
  | nil =>
    generalize hl : ([] : List α) = l at h'
    cases h' with
    | nil => rfl
    | skip _ _ => cases hl
    | run hne _ _ _ => exact absurd (List.append_eq_nil_iff.1 hl.symm).1 hne
  | @skip a rest runs ha _ ih =>
    generalize hl : a :: rest = l at h'
    cases h' with
    | nil => cases hl
    | skip _ hrest =>
      cases hl
      exact ih hrest
    | run hne hrun _ _ =>
      rw [of_cons_eq_run_append hne hrun hl] at ha
      cases ha
  | @run run rest runs hne hrun hnext _ ih =>
    generalize hl : run ++ rest = l at h'
    cases h' with
    | nil => exact absurd (List.append_eq_nil_iff.1 hl).1 hne
    | skip ha _ =>
      rw [of_cons_eq_run_append hne hrun hl.symm] at ha
      cases ha
    | run _ hrun' hnext' hrest' =>
      obtain ⟨rfl, rfl⟩ := leading_inj hrun hrun' hnext hnext' hl
      rw [ih hrest']

theorem Runs.eq_nil_iff {l : List α} {runs : List (List α)} (h : Runs p l runs) :
    runs = [] ↔ ∀ a ∈ l, p a = false := by
  induction h with
  | nil => simp
  | skip ha _ ih => rw [ih, List.forall_mem_cons, and_iff_right ha]
  | run hne hrun _ _ _ =>
    obtain ⟨a, run, rfl⟩ := List.exists_cons_of_ne_nil hne
    have ha := hrun a List.mem_cons_self
    simp [ha]

end Marginalia.Text
