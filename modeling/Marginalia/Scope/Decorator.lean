import Marginalia.Section

/-! # Decorators

A section whose scope holds the decorator's marker belongs to the section that follows.
-/

namespace Marginalia.Decorator

def isDecorator (marker : Text) (s : Section) : Bool := s.scope.any (Text.holds marker)

/-- The decorated section keeps its own scope, even if it has none. -/
def attach (decorator s : Section) : Section := { decorator.merge s with scope := s.scope }

/-- Merges each decorator into the one section that follows it. -/
def attachAll (marker : Text) (sections : List Section) : List Section :=
  Section.foldAdjacent (fun s _ => isDecorator marker s) attach sections

end Marginalia.Decorator
