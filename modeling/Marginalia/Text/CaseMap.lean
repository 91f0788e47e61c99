import Marginalia.Text.Blank

/-! # Runs of case pairs

Case maps are given by runs: the code points `first`, `first + step`, … up to `last` go to
`target`, `target + step`, ….
-/

namespace Marginalia.Text

structure CaseRun where
  first : Nat
  last : Nat
  step : Nat
  target : Nat

def CaseRun.covers (r : CaseRun) (n : Nat) : Bool :=
  r.first ≤ n && n ≤ r.last && (n - r.first) % r.step == 0

/-- The code point that `n` goes to; a code point in no run stays. -/
def mapCase (runs : List CaseRun) (n : Nat) : Nat :=
  match runs.find? (·.covers n) with
  | none => n
  | some r => r.target + (n - r.first)

/-- The code points that the runs send to `n`. -/
def caseSources (runs : List CaseRun) (n : Nat) : List Nat :=
  runs.filterMap fun r =>
    let back := r.first + (n - r.target)
    if r.target ≤ n && r.covers back then some back else none

theorem mem_caseSources {runs : List CaseRun} {m n : Nat} (h : m ∈ caseSources runs n) :
    ∃ r ∈ runs, r.covers m = true ∧ r.target + (m - r.first) = n := by
  simp only [caseSources, List.mem_filterMap] at h
  obtain ⟨r, hr, h⟩ := h
  split at h
  · rename_i hc
    simp only [Bool.and_eq_true, decide_eq_true_eq] at hc
    obtain rfl := Option.some.inj h
    exact ⟨r, hr, hc.2, by omega⟩
  · exact absurd h (by simp)

end Marginalia.Text
