import Marginalia.Text.Word

/-! # Places in a text

A cursor is a place between two characters: its byte offset, the character before it and all that
follows. Assertions look at a cursor and consume nothing.
-/

namespace Marginalia

structure Cursor where
  pos : Nat
  prev : Option Char
  rest : Text

namespace Cursor

/-- The place after the next character; the end of the text stays where it is. -/
def next (c : Cursor) : Cursor :=
  match c.rest with
  | [] => c
  | d :: rest => ⟨c.pos + d.utf8Size, some d, rest⟩

/-- Moves past whole characters until `bytes` bytes are passed. -/
def skip (bytes pos : Nat) (prev : Option Char) : Text → Cursor
  | [] => ⟨pos, prev, []⟩
  | d :: rest =>
    if bytes = 0 then ⟨pos, prev, d :: rest⟩
    else skip (bytes - d.utf8Size) (pos + d.utf8Size) (some d) rest

/-- The first place of a text at or after a byte offset. -/
def ofOffset (t : Text) (offset : Nat) : Cursor := skip offset 0 none t

end Cursor

inductive Look where
  | textStart
  | textEnd
  | lineStart
  | lineEnd
  | wordEdge
  | notWordEdge
  | wordStart
  | wordEnd
  | wordStartHalf
  | wordEndHalf
  deriving DecidableEq

def Look.holds (l : Look) (c : Cursor) : Bool :=
  let wordBefore := c.prev.any Text.isWordChar
  let wordAfter := c.rest.head?.any Text.isWordChar
  match l with
  | textStart => c.prev.isNone
  | textEnd => c.rest.isEmpty
  | lineStart => c.prev.all (· == '\n')
  | lineEnd => c.rest.head?.all (· == '\n')
  | wordEdge => wordBefore != wordAfter
  | notWordEdge => wordBefore == wordAfter
  | wordStart => !wordBefore && wordAfter
  | wordEnd => wordBefore && !wordAfter
  | wordStartHalf => !wordBefore
  | wordEndHalf => !wordAfter

end Marginalia
