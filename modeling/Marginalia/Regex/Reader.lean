import Marginalia.Regex.Bracket
import Marginalia.Regex.Expr
import Marginalia.Text.Number

/-! # Reading patterns

The reader turns the text of a pattern into an expression, or refuses it. Flags hold from where
they are set to the end of the enclosing group, alternatives included; they are resolved while
reading, so that an expression knows none. Patterns nested too deeply are refused.

Three constructs are left out, and a pattern with one of them is refused as well, so that nothing is
said of what it matches: classes by a Unicode property (`\p` and `\P`, see `readEscape`), the flag
`R`, which takes a carriage return and a newline for one line end, and the cleared flag `u`, with
which a pattern matches bytes (see `setFlag`).
-/

namespace Marginalia.Regex

/-- A character that stands for itself. -/
def literal (c : Char) : Read Expr := do
  return .ofSet (foldIf (← flags).caseless (.char c))

def dot : Read Expr := do
  return .set (if (← flags).dotAll then .any else .notNewline)

def caret : Read Expr := do
  return .look (if (← flags).multiline then .lineStart else .textStart)

def dollar : Read Expr := do
  return .look (if (← flags).multiline then .lineEnd else .textEnd)

def backslash : Read Expr := do
  match ← readEscape with
  | .char c => literal c
  | .set s => return .set s
  | .look l => return .look l

/-! ## Repetition -/

/-- A question mark after a repetition swaps its greed, and so does the flag. -/
def readGreed : Read Bool := do
  let lazy ← accept "?"
  return lazy == (← flags).swapGreed

/-- A counted repetition after its opening brace: the least and the greatest count. -/
def readCounts : Read (Nat × Option Nat) := do
  let least ← readDecimal
  let most ←
    if ← accept "," then do
      skipSpace
      if (← peek) = some '\x7d' then pure none else pure (some (← readDecimal))
    else pure (some least)
  expect "\x7d"
  skipSpace
  match most with
  | none => return (least, none)
  | some n => if least ≤ n then return (least, some n) else failure

/-! ## Flags and group names -/

/-- A flag set or cleared. Patterns always match characters, so `u` cannot be cleared, and there is
no `R`. -/
def setFlag (value : Bool) (f : Flags) : Char → Option Flags
  | 'i' => some { f with caseless := value }
  | 'm' => some { f with multiline := value }
  | 's' => some { f with dotAll := value }
  | 'U' => some { f with swapGreed := value }
  | 'x' => some { f with spaced := value }
  | 'u' => if value then some f else none
  | _ => none

/-- Applies flag letters, each at most once; those after the one hyphen are cleared. -/
def applyFlags (value : Bool) (seen : Text) (f : Flags) : Text → Option Flags
  | [] => if seen.head? = some '-' then none else some f
  | c :: letters =>
    if c ∈ seen then none
    else if c = '-' then applyFlags false (c :: seen) f letters
    else do applyFlags value (c :: seen) (← setFlag value f c) letters

def isNameChar (c : Char) : Bool :=
  c == '_' || c == '.' || c == '[' || c == ']' || Text.isAlphanumeric c

def isNameStart (c : Char) : Bool := c == '_' || Text.isLetter c

/-- A group's name up to the angle bracket that ends it; no two groups share a name. -/
def readName : Read Text := do
  let name ← takeWhile (· != '>')
  expect ">"
  match name with
  | [] => failure
  | c :: rest =>
    if !isNameStart c || !rest.all isNameChar then failure
    if (← get).names.any (·.1 == name) then failure
    return name

def openGroup : Read Nat :=
  modifyGet fun s => (s.groups + 1, { s with groups := s.groups + 1 })

/-- How a group opens: as a capture, as a plain group with its flags, or as mere flags for what
follows. -/
inductive Opening where
  | capture (n : Nat)
  | plain (inner : Flags)
  | directive (f : Flags)

/-- What stands after an opening parenthesis. Look-around is refused. -/
def readOpening : Read Opening := do
  skipSpace
  let rest := (← get).rest
  if ["?=", "?!", "?<=", "?<!"].any fun head => Text.startsWith head rest then failure
  if (← accept "?P<") || (← accept "?<") then
    let n ← openGroup
    let name ← readName
    modify fun s => { s with names := s.names ++ [(name, n)] }
    return .capture n
  else if ← accept "?" then
    let letters ← takeWhile fun c => c != ':' && c != ')'
    let some f := applyFlags true [] (← flags) letters | failure
    if ← accept ":" then return .plain f
    expect ")"
    if letters.isEmpty then failure
    return .directive f
  else return .capture (← openGroup)

/-! ## Sequences and alternatives -/

/-- What is read as one item of a sequence: an expression, or a directive, which is none. -/
abbrev Item := Nested (Option Expr)

/-- The sequence of the items read, the last one first; directives are left out. -/
def sequenceOf (items : List Item) : Nested Expr :=
  ⟨.inSequence (items.reverse.filterMap (·.value)), depthOf items⟩

def choiceOf (alternatives : List (Nested Expr)) : Nested Expr :=
  ⟨.inChoice (alternatives.map (·.value)), depthOf alternatives⟩

mutual

/-- Alternatives up to the end of the group or of the pattern. -/
def readAlternatives : Nat → Read (List (Nested Expr))
  | 0 => failure
  | fuel + 1 => do
    let e ← readSequence fuel []
    if ← accept "|" then return e :: (← readAlternatives fuel) else return [e]

/-- A sequence up to the end of the alternative, after the items that were read of it. A repetition
takes the item before it, which may not be a directive. -/
def readSequence : Nat → List Item → Read (Nested Expr)
  | 0, _ => failure
  | fuel + 1, items => do
    skipSpace
    match ← peek with
    | none => return sequenceOf items
    | some '|' => return sequenceOf items
    | some ')' => return sequenceOf items
    | some c =>
      drop 1
      match c with
      | '*' => readRepetition fuel items (pure (0, none))
      | '+' => readRepetition fuel items (pure (1, none))
      | '?' => readRepetition fuel items (pure (0, some 1))
      | '\x7b' => readRepetition fuel items readCounts
      | '(' => readSequence fuel ((← readGroup fuel) :: items)
      | '[' => do
        let s ← readClass fuel
        readSequence fuel (⟨some (.ofSet s.value), s.depth⟩ :: items)
      | '.' => readSequence fuel (⟨some (← dot), 0⟩ :: items)
      | '^' => readSequence fuel (⟨some (← caret), 0⟩ :: items)
      | '$' => readSequence fuel (⟨some (← dollar), 0⟩ :: items)
      | '\\' => readSequence fuel (⟨some (← backslash), 0⟩ :: items)
      | c => readSequence fuel (⟨some (← literal c), 0⟩ :: items)

def readRepetition : Nat → List Item → Read (Nat × Option Nat) → Read (Nested Expr)
  | 0, _, _ => failure
  | fuel + 1, ⟨some e, depth⟩ :: items, counts => do
    let (least, most) ← counts
    let greedy ← readGreed
    readSequence fuel (⟨some (e.times greedy least most), depth + 1⟩ :: items)
  | _, _, _ => failure

/-- A group after its opening parenthesis, or a directive. -/
def readGroup : Nat → Read Item
  | 0 => failure
  | fuel + 1 => do
    let outer ← flags
    match ← readOpening with
    | .directive f =>
      modify fun s => { s with flags := f }
      return ⟨none, 0⟩
    | .plain inner =>
      modify fun s => { s with flags := inner }
      let e := choiceOf (← readAlternatives fuel)
      expect ")"
      modify fun s => { s with flags := outer }
      return ⟨some e.value, e.depth + 1⟩
    | .capture n =>
      let e := choiceOf (← readAlternatives fuel)
      expect ")"
      modify fun s => { s with flags := outer }
      return ⟨some (.capture n e.value), e.depth + 1⟩

end

/-- Patterns nested deeper than this are refused. -/
def depthLimit : Nat := 250

/-- The expression and the group names of a whole pattern. -/
def read? (t : Text) : Option (Expr × List (Text × Nat)) := do
  let (alternatives, s) ← (readAlternatives (4 * t.length + 4)).run { rest := t }
  let e := choiceOf alternatives
  if s.rest.isEmpty && e.depth ≤ depthLimit then some (e.value, s.names) else none

end Marginalia.Regex
