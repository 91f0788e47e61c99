import Marginalia.Text.Blank
import Marginalia.Text.Numeral

/-! # The text of a pattern while it is read

The state of reading a pattern: what is left of its text, the flags in force, and the groups opened
so far. Reading fails without saying where; a pattern is accepted or refused as a whole.
-/

namespace Marginalia.Regex

structure Flags where
  caseless : Bool := false
  multiline : Bool := false
  dotAll : Bool := false
  swapGreed : Bool := false
  spaced : Bool := false

/-- What is left to read, the flags in force, and the groups opened so far. -/
structure Source where
  rest : Text
  flags : Flags := {}
  groups : Nat := 0
  names : List (Text × Nat) := []

abbrev Read := StateT Source Option

/-- Something that was read, with the number of levels to which its parts are nested. -/
structure Nested (α : Type) where
  value : α
  depth : Nat := 0

/-- The deepest level of several things. -/
def deepest {α : Type} (xs : List (Nested α)) : Nat := xs.foldl (fun d x => max d x.depth) 0

/-- The depth of several things side by side: together they make up a level, unless there is just
one of them or none. -/
def depthOf {α : Type} : List (Nested α) → Nat
  | [] => 0
  | [x] => x.depth
  | xs => deepest xs + 1

def peek : Read (Option Char) := return (← get).rest.head?

def flags : Read Flags := return (← get).flags

def drop (n : Nat) : Read Unit := modify fun s => { s with rest := s.rest.drop n }

/-- Takes the next character; the end of the pattern is refused. -/
def take : Read Char := do
  let some c ← peek | failure
  drop 1
  return c

/-- Takes `head` if the rest starts with it. -/
def accept (head : Text) : Read Bool := do
  match Text.afterHead? head (← get).rest with
  | none => return false
  | some rest =>
    modify fun s => { s with rest }
    return true

def expect (head : Text) : Read Unit := do
  if !(← accept head) then failure

def takeWhile (p : Char → Bool) : Read Text :=
  modifyGet fun s => (s.rest.takeWhile p, { s with rest := s.rest.dropWhile p })

/-- Drops blanks and comments, which run from `#` to the end of the line. -/
def dropSpace (inComment : Bool) : Text → Text
  | [] => []
  | c :: t =>
    if inComment then dropSpace (c != '\n') t
    else if Text.isBlankChar c then dropSpace false t
    else if c = '#' then dropSpace true t
    else c :: t

/-- In spaced patterns, passes over blanks and comments. -/
def skipSpace : Read Unit :=
  modify fun s => if s.flags.spaced then { s with rest := dropSpace false s.rest } else s

/-- A decimal number of 32 bits, with blanks around it. -/
def readDecimal : Read Nat := do
  discard <| takeWhile Text.isBlankChar
  let digits ← takeWhile Char.isDigit
  discard <| takeWhile Text.isBlankChar
  let n := Text.valueIn 10 digits
  if digits.isEmpty || 4294967296 ≤ n then failure else return n

/-- The code point after `\x`, `\u` or `\U`: a fixed number of digits, or any number in braces. -/
def readHex (width : Nat) : Read Char := do
  let digits ←
    if ← accept "\x7b" then do
      let digits ← takeWhile Text.isHexDigit
      expect "\x7d"
      pure digits
    else do
      let digits := (← get).rest.take width
      drop width
      if digits.length = width && digits.all Text.isHexDigit then pure digits
      else failure
  if digits.isEmpty then failure
  let some c := Text.scalar? (Text.valueIn 16 digits) | failure
  return c

end Marginalia.Regex
