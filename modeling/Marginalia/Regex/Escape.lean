import Marginalia.Regex.CharSet
import Marginalia.Regex.Cursor
import Marginalia.Regex.Source

/-! # Escapes

A backslash and what follows it stand for a character, a class or an assertion. Classes by a Unicode
property, `\p` and `\P`, are left out and refused.
-/

namespace Marginalia.Regex

inductive Escape where
  | char (c : Char)
  | set (s : CharSet)
  | look (l : Look)

/-- Punctuation may follow a backslash, except the angle brackets, which are assertions. -/
def isEscapable (c : Char) : Bool :=
  c.toNat < 128 && !c.isAlphanum && c != '<' && c != '>'

/-- The assertion after `\b`: a plain word edge, unless a name in braces follows. -/
def readWordEdge : Read Look := do
  let isNameChar (c : Char) : Bool := c.isAlpha || c == '-'
  match (← get).rest with
  | '\x7b' :: c :: _ =>
    if isNameChar c then
      drop 1
      let name ← takeWhile isNameChar
      expect "\x7d"
      match String.ofList name with
      | "start" => return .wordStart
      | "end" => return .wordEnd
      | "start-half" => return .wordStartHalf
      | "end-half" => return .wordEndHalf
      | _ => failure
    else return .wordEdge
  | ['\x7b'] => failure
  | _ => return .wordEdge

/-- What a backslash and the characters after it stand for. -/
def readEscape : Read Escape := do
  let c ← take
  match c with
  | 'd' => return .set .digit
  | 'D' => return .set (.compl .digit)
  | 's' => return .set .blank
  | 'S' => return .set (.compl .blank)
  | 'w' => return .set .word
  | 'W' => return .set (.compl .word)
  | 'x' => return .char (← readHex 2)
  | 'u' => return .char (← readHex 4)
  | 'U' => return .char (← readHex 8)
  | 'a' => return .char '\x07'
  | 'f' => return .char '\x0c'
  | 't' => return .char '\t'
  | 'n' => return .char '\n'
  | 'r' => return .char '\r'
  | 'v' => return .char '\x0b'
  | 'A' => return .look .textStart
  | 'z' => return .look .textEnd
  | 'b' => return .look (← readWordEdge)
  | 'B' => return .look .notWordEdge
  | '<' => return .look .wordStart
  | '>' => return .look .wordEnd
  | c => if isEscapable c then return .char c else failure

end Marginalia.Regex
