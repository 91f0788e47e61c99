import Marginalia.Journal
import Marginalia.Pass

/-! # Pipelines

A pipeline is a list of passes. New passes go before or after the first pass of a name.
-/

namespace Marginalia

inductive Placement where
  | before (anchor : String)
  | after (anchor : String)
  deriving DecidableEq

def Placement.anchor : Placement → String
  | before anchor => anchor
  | after anchor => anchor

structure Pipeline where
  passes : List Pass := []

namespace Pipeline

/-- What every source language starts from. Merges change which sections are neighbours, so levels
are set anew before each of them. -/
def base : Pipeline where
  passes := [.setLevels, .alignDocs, .setLevels, .mergeUp, .setLevels, .mergeDown, .setLevels,
    .absorb]

def names (p : Pipeline) : List String := p.passes.map (·.name)

def contains (p : Pipeline) (name : String) : Bool := p.passes.any (·.name == name)

/-- Inserts a pass next to the first pass that has the anchor's name. -/
def insertPass (placement : Placement) (pass : Pass) : List Pass → Option (List Pass)
  | [] => none
  | first :: rest =>
    if first.name = placement.anchor then
      match placement with
      | .before _ => some (pass :: first :: rest)
      | .after _ => some (first :: pass :: rest)
    else (insertPass placement pass rest).map (first :: ·)

def place (p : Pipeline) (placement : Placement) (pass : Pass) : Except Error Pipeline :=
  match insertPass placement pass p.passes with
  | none => .error (.unknownPass placement.anchor)
  | some passes => .ok ⟨passes⟩

def insertBefore (p : Pipeline) (anchor : String) (pass : Pass) : Except Error Pipeline :=
  p.place (.before anchor) pass

def insertAfter (p : Pipeline) (anchor : String) (pass : Pass) : Except Error Pipeline :=
  p.place (.after anchor) pass

/-- Removes every pass of a name. -/
def remove (p : Pipeline) (name : String) : Except Error Pipeline :=
  if p.contains name then .ok ⟨p.passes.filter (·.name != name)⟩
  else .error (.unknownPass name)

/-- Runs the passes in order. -/
def run (p : Pipeline) (g : Grammar) (sections : List Section) : List Section :=
  p.passes.foldl (fun sections pass => pass.run g sections) sections

/-- Runs the passes and records how many sections each of them leaves. -/
def runLogged (p : Pipeline) (g : Grammar) (sections : List Section) : Logged (List Section) :=
  p.passes.foldlM (fun sections pass => do
    let sections := pass.run g sections
    Logged.note .trace (pass.name ++ ": " ++ Text.ofNat sections.length ++ " sections")
    return sections) sections

/-- The names in one line. -/
def summary (p : Pipeline) : Text :=
  "Pipeline \x7b passes: [" ++ Text.join ", " (p.names.map String.toList) ++ "] \x7d"

theorem value_runLogged (p : Pipeline) (g : Grammar) (sections : List Section) :
    (p.runLogged g sections).value = p.run g sections := by
  obtain ⟨passes⟩ := p
  simp only [runLogged, run]
  induction passes generalizing sections with
  | nil => rfl
  | cons pass passes ih => exact ih _

theorem insertPass_eq_none_iff {placement : Placement} {pass : Pass} {passes : List Pass} :
    insertPass placement pass passes = none ↔ ∀ p ∈ passes, p.name ≠ placement.anchor := by
  induction passes with
  | nil => simp [insertPass]
  | cons first rest ih =>
    by_cases h : first.name = placement.anchor
    · cases placement <;> simp [insertPass, h]
    · simp [insertPass, h, ih]

end Pipeline

end Marginalia
