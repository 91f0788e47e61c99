import Marginalia.Error
import Marginalia.Section

/-! # Paired comments

A paired comment runs from a start delimiter at the beginning of a line to the nearest end
delimiter. Marks right after the start or right before the end tell pragmas from comments.
-/

namespace Marginalia

structure BlockComment where
  /-- Matches the start delimiter with the indentation before it as its first group. -/
  opening : Regex
  closing : Regex
  /-- The text right after a start, and the text right before an end, that disqualify it. -/
  ignored : Option (Text × Text) := none

namespace BlockComment

def openingSource (start : Text) : Text := "(?m)^([ \\t]*)(?:" ++ start ++ ")"

def firstColumnSource (start : Text) : Text := "(?m)^()(?:" ++ start ++ ")"

def closingSource (stop : Text) : Text := "(?m)" ++ stop

def compile (start stop : Text) : Except Error BlockComment := do
  return { opening := ← Regex.compile (openingSource start)
           closing := ← Regex.compile (closingSource stop) }

/-- A comment whose start delimiter has to stand in the first column. -/
def compileFirstColumn (start stop : Text) : Except Error BlockComment := do
  let opening ← Regex.compile (firstColumnSource start)
  return { ← compile start stop with opening }

/-- Passes over starts followed by `start` and ends preceded by `stop`. -/
def ignoring (b : BlockComment) (start stop : Text) : BlockComment :=
  { b with ignored := some (start, stop) }

/-- The byte offset after the character at `pos`. -/
def advance (code : Text) (pos : Nat) : Nat :=
  match Text.after pos code with
  | [] => pos + 1
  | c :: _ => pos + c.utf8Size

def skipsOpening (b : BlockComment) (code : Text) (stop : Nat) : Bool :=
  b.ignored.any fun marks => Text.startsWith marks.1 (Text.after stop code)

def skipsClosing (b : BlockComment) (code : Text) (start : Nat) : Bool :=
  b.ignored.any fun marks => Text.endsWith marks.2 (Text.upTo start code)

/-- The nearest end delimiter from `pos` on that is not disqualified. -/
def closingFrom (b : BlockComment) (code : Text) : Nat → Nat → Option Match
  | 0, _ => none
  | fuel + 1, pos =>
    if Text.size code < pos then none
    else
      match b.closing.findAt code pos with
      | none => none
      | some m =>
        if !b.skipsClosing code m.start then some m
        else if !m.isEmpty then b.closingFrom code fuel m.stop
        else if m.stop < Text.size code then b.closingFrom code fuel (advance code m.stop)
        else none

/-- The end delimiter of a comment whose text starts at `pos`. Each disqualified one moves the
search on by a character at least. -/
def closing? (b : BlockComment) (code : Text) (pos : Nat) : Option Match :=
  b.closingFrom code (code.length + 2) pos

def spanFrom (b : BlockComment) (code : Text) : Nat → Nat → Option Span
  | 0, _ => none
  | fuel + 1, pos =>
    if Text.size code < pos then none
    else
      match b.opening.findAt code pos with
      | none => none
      | some m =>
        if b.skipsOpening code m.stop then
          if Text.size code ≤ m.stop then none else b.spanFrom code fuel (advance code m.stop)
        else
          match b.closing? code m.stop with
          | none => none
          | some e =>
            let indentation := (m.group? code 1).getD []
            some ⟨m.start, e.stop, indentation ++ Text.slice m.stop e.start code⟩

/-- The next complete comment that starts at or after `pos`. -/
def nextSpan (b : BlockComment) (code : Text) (pos : Nat) : Option Span :=
  b.spanFrom code (code.length + 2) pos

/-- The span with the least start, the first of them on a tie. -/
def earliest : List Span → Option Span
  | [] => none
  | s :: rest =>
    match earliest rest with
    | none => some s
    | some t => if t.start < s.start then some t else some s

/-- The next comment of any of the given kinds. -/
def nextOf (kinds : List BlockComment) (code : Text) (pos : Nat) : Option Span :=
  earliest (kinds.filterMap fun b => b.nextSpan code pos)

def spansFrom (kinds : List BlockComment) (code : Text) : Nat → Nat → List Span
  | 0, _ => []
  | fuel + 1, pos =>
    if pos < Text.size code then
      match nextOf kinds code pos with
      | none => []
      | some s =>
        let next := if s.start < s.stop then s.stop else advance code s.start
        s :: spansFrom kinds code fuel next
    else []

/-- Every comment of the given kinds, the earliest start first; the search goes on after its end. -/
def spans (kinds : List BlockComment) (code : Text) : List Span :=
  spansFrom kinds code (code.length + 1) 0

/-- Turns paired comments into documentation. -/
def extract (kinds : List BlockComment) (sections : List Section) : List Section :=
  if kinds.isEmpty then sections
  else sections.flatMap fun s => s.splitBySpans (spans kinds s.code) true

end BlockComment

end Marginalia
