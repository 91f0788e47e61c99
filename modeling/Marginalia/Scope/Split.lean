import Marginalia.Scope.Rule
import Marginalia.Section

/-! # Splitting at scopes

Code is cut where a scope rule matches after the section's own first line, and, in languages where
indentation counts, where a line is indented less than the first one. Every piece but the first is
cut again until no cut applies.
-/

namespace Marginalia.Scope

/-- The offset of the first line that is not blank. -/
def contentOffset : List Text → Nat
  | [] => 0
  | line :: rest => if Text.isBlank line then Text.size line + contentOffset rest else 0

/-- The offset of the first line that is indented less than the first line that is not blank. -/
def dedentFrom (base : Option Nat) (offset : Nat) : List Text → Option Nat
  | [] => none
  | line :: rest =>
    let next := offset + Text.size line
    if Text.isBlank line then dedentFrom base next rest
    else
      match base with
      | none => dedentFrom (some (Text.indentWidth line)) next rest
      | some width =>
        if Text.indentWidth line < width then some offset else dedentFrom base next rest

def dedent? (code : Text) : Option Nat := dedentFrom none 0 (Text.lines code)

/-- Cuts a section at the next scope that is not its own. A scope on the first line that is not
blank is the section's own and labels it. -/
def cutAtScope (rules : List ScopeRule) (s : Section) : List Section :=
  if rules.isEmpty || !s.hasCode then [s]
  else
    let firstLine := contentOffset (Text.lines s.code)
    let found := ScopeRule.findFirst rules s.code 0
    let (s, found) := match found with
      | none => (s, none)
      | some own =>
        if own.start ≤ firstLine then
          ({ s with scope := some own.label },
            ScopeRule.findFirst rules s.code (max own.stop (firstLine + 1)))
        else (s, some own)
    match found with
    | none => [s]
    | some next =>
      let parts := s.splitAt next.start
      [parts.1, { parts.2 with scope := some next.label }]

/-- Cuts a section at a dedent, then what stands before it at the next scope. -/
def cutAtDedent (rules : List ScopeRule) (s : Section) : List Section :=
  match dedent? s.code with
  | none => cutAtScope rules s
  | some pos =>
    let parts := s.splitAt pos
    cutAtScope rules parts.1 ++ [{ parts.2 with level := Text.indentWidth parts.2.code }]

/-- Cuts a section; its first piece is final and the others are cut again. -/
def pieces (cut : Section → List Section) : Nat → Section → List Section
  | 0, s => [s]
  | fuel + 1, s =>
    match cut s with
    | [] => []
    | first :: rest => first :: rest.flatMap (pieces cut fuel)

/-- Cuts every section until no cut applies. The pieces of a cut are shorter than what is cut, so
the length of the code bounds the depth. -/
def splitAll (cut : Section → List Section) (sections : List Section) : List Section :=
  sections.flatMap fun s => pieces cut (s.code.length + 1) s

/-- Splits at scope keywords only. -/
def splitByKeyword (rules : List ScopeRule) (sections : List Section) : List Section :=
  splitAll (cutAtScope rules) sections

/-- Splits at dedents and at scope keywords. -/
def splitByIndent (rules : List ScopeRule) (sections : List Section) : List Section :=
  splitAll (cutAtDedent rules) sections

end Marginalia.Scope
