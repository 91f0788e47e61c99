import Marginalia.Error
import Marginalia.Text.Lines

/-! # Scope rules

A scope rule finds the constructs that open a named block. Its first group, or else the whole
match, is the label of the block.
-/

namespace Marginalia

structure ScopeRule where
  pattern : Regex

structure ScopeMatch where
  start : Nat
  stop : Nat
  label : Text
  deriving DecidableEq

namespace ScopeRule

/-- Scope patterns are read in multi-line mode. -/
def compile (pattern : Text) : Except Error ScopeRule := do
  return ⟨← Regex.compile ("(?m)" ++ pattern)⟩

/-- The first match from an offset before the end of the text. -/
def findAt (rule : ScopeRule) (t : Text) (offset : Nat) : Option ScopeMatch :=
  if Text.size t ≤ offset then none
  else
    (rule.pattern.findAt t offset).map fun m =>
      ⟨m.start, m.stop, Text.trim ((m.group? t 1).getD (m.text t))⟩

/-- Whether the leftmost match in a line starts the line. -/
def matchesLine (rule : ScopeRule) (line : Text) : Bool :=
  (rule.pattern.find line).any (·.start == 0)

/-- The earlier of two matches, the first of them on a tie. -/
def earlier (best : Option ScopeMatch) (found : Option ScopeMatch) : Option ScopeMatch :=
  match best, found with
  | none, found => found
  | best, none => best
  | some a, some b => if b.start < a.start then some b else some a

/-- The earliest match of any rule from an offset on; ties go to the rule listed first. -/
def findFirst (rules : List ScopeRule) (t : Text) (offset : Nat) : Option ScopeMatch :=
  rules.foldl (fun best rule => earlier best (rule.findAt t offset)) none

/-- Whether the last line of some code opens a block. -/
def opensBlock (rules : List ScopeRule) (code : Text) : Bool :=
  match (Text.rows (Text.trim code)).getLast? with
  | none => false
  | some line => rules.any fun rule => rule.matchesLine (Text.trim line)

end ScopeRule

end Marginalia
