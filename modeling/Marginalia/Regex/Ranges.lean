import Marginalia.Text.Fold

/-! # Ranges of code points

Sets of code points as lists of inclusive ranges. A list is orderly when its ranges ascend and no
two of them touch; each operation gives an orderly list.
-/

namespace Marginalia.Ranges

def last : Nat := 0x10FFFF

/-- Joins the range `r` with those of a list by ascending lower ends that touch it, and so on. -/
def joinFrom (r : Nat × Nat) : List (Nat × Nat) → List (Nat × Nat)
  | [] => [r]
  | s :: rest =>
    if s.1 ≤ r.2 + 1 then joinFrom (r.1, max r.2 s.2) rest else r :: joinFrom s rest

/-- The orderly list of the same code points. -/
def tidy (ranges : List (Nat × Nat)) : List (Nat × Nat) :=
  match ranges.mergeSort fun r s => r.1 ≤ s.1 with
  | [] => []
  | r :: rest => joinFrom r rest

def complFrom (first : Nat) : List (Nat × Nat) → List (Nat × Nat)
  | [] => if first ≤ last then [(first, last)] else []
  | r :: rest =>
    if first < r.1 then (first, r.1 - 1) :: complFrom (r.2 + 1) rest else complFrom (r.2 + 1) rest

/-- All code points that an orderly list leaves out. -/
def compl (ranges : List (Nat × Nat)) : List (Nat × Nat) := complFrom 0 ranges

def union (s t : List (Nat × Nat)) : List (Nat × Nat) := tidy (s ++ t)

def inter (s t : List (Nat × Nat)) : List (Nat × Nat) := compl (union (compl s) (compl t))

def diff (s t : List (Nat × Nat)) : List (Nat × Nat) := inter s (compl t)

/-- Each code point that folds to another, with that one. -/
def foldPairs : List (Nat × Nat) :=
  Text.foldRuns.flatMap fun r =>
    (List.range ((r.last - r.first) / r.step + 1)).map fun i =>
      (r.first + r.step * i, r.target + r.step * i)

/-- The code points equal up to case to one of the ranges. -/
def fold (ranges : List (Nat × Nat)) : List (Nat × Nat) :=
  let mem := Text.inRanges ranges
  let targets := (foldPairs.filter fun p => mem p.1 || mem p.2).map (·.2)
  let sources := (foldPairs.filter fun p => targets.contains p.2).map (·.1)
  union ranges ((targets ++ sources).map fun n => (n, n))

end Marginalia.Ranges
