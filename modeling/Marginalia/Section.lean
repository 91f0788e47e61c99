import Marginalia.Regex.Search
import Marginalia.Table

/-! # Sections

A section pairs documentation with code. Cutting never reorders text: a section's code falls into
adjacent pieces, and merging two neighbours puts their texts together again.
-/

namespace Marginalia

structure Section where
  docs : Text := []
  code : Text := []
  /-- The indentation of the code. -/
  level : Nat := 0
  /-- The label of the construct that opens the section. -/
  scope : Option Text := none
  /-- Whether the documentation was taken out of its comment. -/
  stripped : Bool := false
  annotations : Table Text := ∅
  deriving DecidableEq

/-- A byte range of code and the documentation it becomes. -/
structure Span where
  start : Nat
  stop : Nat
  docs : Text
  deriving DecidableEq

namespace Section

def ofCode (code : Text) : Section := { code }

def ofDocs (docs : Text) : Section := { docs }

def hasCode (s : Section) : Bool := !Text.isBlank s.code

def hasDocs (s : Section) : Bool := !Text.isBlank s.docs

def anchorKey : Text := "anchor"

/-- The name under which other pages refer to the section. -/
def anchor? (s : Section) : Option Text := s.annotations.find? anchorKey

/-- Cuts the code at the first character boundary at or after `pos`. The first part keeps all but
the code that goes to the second. -/
def splitAt (s : Section) (pos : Nat) : Section × Section :=
  ({ s with code := Text.upTo pos s.code }, { code := Text.after pos s.code, level := s.level })

/-- Documentation for each span, followed by the code up to the next span if there is any. -/
def spanSections (level : Nat) (stripped : Bool) (code : Text) : List Span → List Section
  | [] => []
  | span :: rest =>
    let next := match rest with
      | [] => Text.size code
      | s :: _ => s.start
    let gap := if span.stop < next then [{ code := Text.slice span.stop next code, level }] else []
    { docs := span.docs, level, stripped } :: gap ++ spanSections level stripped code rest

/-- Moves the spans of the code into documentation; without spans the section stays as it is. -/
def splitBySpans (s : Section) (spans : List Span) (stripped : Bool) : List Section :=
  match spans with
  | [] => [s]
  | span :: _ =>
    { s with code := Text.upTo span.start s.code } :: spanSections s.level stripped s.code spans

/-- The nonempty matches of a pattern; the first group, if it took part, is the documentation. -/
def patternSpans (re : Regex) (code : Text) : List Span :=
  (re.matchesIn code).filterMap fun m =>
    if m.isEmpty then none
    else some ⟨m.start, m.stop, (m.group? code 1).getD (m.text code)⟩

def splitByPattern (s : Section) (re : Regex) (stripped : Bool) : List Section :=
  s.splitBySpans (patternSpans re s.code) stripped

/-- Puts two neighbours together. The second one's scope and annotations win. -/
def merge (s t : Section) : Section where
  docs := s.docs ++ t.docs
  code := s.code ++ t.code
  level := s.level
  scope := t.scope.or s.scope
  stripped := s.stripped || t.stripped
  annotations := s.annotations.extend t.annotations

/-- Whether there is anything to show. -/
def isFilled (s : Section) : Bool := s.hasCode || s.hasDocs

/-- Drops the sections with neither documentation nor code. -/
def keepFilled (sections : List Section) : List Section := sections.filter isFilled

@[simp] theorem keepFilled_keepFilled (sections : List Section) :
    keepFilled (keepFilled sections) = keepFilled sections := by
  simp [keepFilled]

/-- Merges each section into the one before it while `joins` holds. -/
def foldFrom (joins : Section → Section → Bool) (combine : Section → Section → Section)
    (s : Section) : List Section → List Section
  | [] => [s]
  | t :: rest =>
    if joins s t then foldFrom joins combine (combine s t) rest
    else s :: foldFrom joins combine t rest

def foldAdjacent (joins : Section → Section → Bool) (combine : Section → Section → Section) :
    List Section → List Section
  | [] => []
  | s :: rest => foldFrom joins combine s rest

end Section

end Marginalia
