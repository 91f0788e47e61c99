import Marginalia.Comment.Block
import Marginalia.Comment.Decoration
import Marginalia.Comment.Docstring
import Marginalia.Comment.Inline
import Marginalia.Link
import Marginalia.Scope.Decorator
import Marginalia.Scope.Split

/-! # Grammars

What the passes know about a language.
-/

namespace Marginalia

structure Grammar where
  inline : Option InlineComment := none
  blocks : List BlockComment := []
  docstring : Bool := false
  decoration : Bool := false
  scopeRules : List ScopeRule := []
  linkRules : List LinkRule := []
  /-- Put before every anchor. -/
  anchorHead : Text := []
  /-- The text in a scope's label that marks a decorator. -/
  decoratorMarker : Option Text := none

end Marginalia
