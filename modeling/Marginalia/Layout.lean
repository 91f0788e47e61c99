import Marginalia.Scope.Rule
import Marginalia.Section

/-! # Layout of sections

Levels, the alignment of documentation, and the merges that bring documentation and the code it
belongs to into one section.
-/

namespace Marginalia.Layout

/-- Sets each level by the indentation of the code; a section without code takes the level of the
one before it. -/
def levelsFrom (previous : Nat) : List Section → List Section
  | [] => []
  | s :: rest =>
    let level := if s.hasCode then Text.indentWidth s.code else previous
    { s with level } :: levelsFrom level rest

def setLevels (sections : List Section) : List Section := levelsFrom 0 sections

/-- Takes the indentation of the first line that is not blank off every line that starts with it. -/
def alignText (docs : Text) : Text :=
  let indentation := Text.indent docs
  ((Text.lines docs).map fun line => (Text.afterHead? indentation line).getD line).flatten

def alignDocs (sections : List Section) : List Section :=
  sections.map fun s => { s with docs := alignText s.docs }

/-- Documentation without code, right after undocumented code that opens a block. -/
def joinsUp (rules : List ScopeRule) (s t : Section) : Bool :=
  !t.hasCode && !s.hasDocs && s.hasCode && ScopeRule.opensBlock rules s.code

def mergeKeepingScope (s t : Section) : Section := { s.merge t with scope := s.scope.or t.scope }

/-- Moves documentation written just inside a block up to the code that opens it. -/
def mergeUp (rules : List ScopeRule) (sections : List Section) : List Section :=
  Section.foldAdjacent (joinsUp rules) mergeKeepingScope sections

/-- Undocumented code right after documentation without code. -/
def joinsDown (s t : Section) : Bool := !s.hasCode && s.hasDocs && !t.hasDocs && t.hasCode

/-- Attaches code to the documentation just above it. -/
def mergeDown (sections : List Section) : List Section :=
  Section.foldAdjacent joinsDown Section.merge sections

/-- Undocumented and deeper than the section before it. -/
def isAbsorbed (s t : Section) : Bool := !t.hasDocs && s.level < t.level

/-- Appends the code of `t`, on a line of its own. -/
def absorbInto (s t : Section) : Section :=
  let ending := if s.code.isEmpty || s.code.getLast? = some '\n' then [] else ['\n']
  { s with
    code := s.code ++ ending ++ t.code
    annotations := s.annotations.extend t.annotations }

/-- Takes undocumented deeper code into the block that encloses it. -/
def absorb (sections : List Section) : List Section :=
  Section.foldAdjacent isAbsorbed absorbInto sections

end Marginalia.Layout
