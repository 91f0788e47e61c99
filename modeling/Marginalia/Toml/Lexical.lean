import Marginalia.Text.Blank
import Marginalia.Text.Numeral
import Marginalia.Toml.Value

/-! # Words of TOML

Blanks, comments, line ends, keys and strings.
-/

namespace Marginalia.Toml

abbrev Read := StateT Text Option

def peek : Read (Option Char) := return (← get).head?

def take : Read Char := do
  match ← get with
  | [] => failure
  | c :: rest =>
    set rest
    return c

/-- Takes `head` if the rest starts with it. -/
def accept (head : Text) : Read Bool := do
  match Text.afterHead? head (← get) with
  | none => return false
  | some rest =>
    set rest
    return true

def expect (head : Text) : Read Unit := do
  if !(← accept head) then failure

def takeWhile (p : Char → Bool) : Read Text := modifyGet fun t => (t.takeWhile p, t.dropWhile p)

def skipBlanks : Read Unit := discard <| takeWhile Text.isIndentChar

/-- Characters of comments and strings: tabs and all that is no control character. -/
def isTextChar (c : Char) : Bool := c == '\t' || (0x20 ≤ c.toNat && c.toNat != 0x7F)

def acceptNewline : Read Bool := do
  if ← accept "\n" then return true else accept "\r\n"

def skipComment : Read Unit := do
  if ← accept "#" then discard <| takeWhile isTextChar

/-- The end of a statement: a comment if there is one, then a line end or the end of the text. -/
def endStatement : Read Unit := do
  skipBlanks
  skipComment
  if (← get).isEmpty then return ()
  if !(← acceptNewline) then failure

/-- Blanks, comments and line ends between the items of an array. -/
def skipLines : Nat → Read Unit
  | 0 => return ()
  | fuel + 1 => do
    skipBlanks
    skipComment
    if ← acceptNewline then skipLines fuel

/-! ## Strings -/

def readScalar (width : Nat) : Read Char := do
  let digits := (← get).take width
  if digits.length != width || !digits.all Text.isHexDigit then failure
  set ((← get).drop width)
  let some c := Text.scalar? (Text.valueIn 16 digits) | failure
  return c

/-- The character after a backslash. -/
def readEscape : Read Char := do
  match ← take with
  | 'b' => return '\x08'
  | 't' => return '\t'
  | 'n' => return '\n'
  | 'f' => return '\x0c'
  | 'r' => return '\r'
  | '"' => return '"'
  | '\\' => return '\\'
  | 'u' => readScalar 4
  | 'U' => readScalar 8
  | _ => failure

/-- A string up to its closing quote. Escapes are resolved between double quotes. -/
def readQuoted (quote : Char) : Nat → Read Text
  | 0 => failure
  | fuel + 1 => do
    let c ← take
    if c = quote then return []
    else if c = '\\' && quote = '"' then return (← readEscape) :: (← readQuoted quote fuel)
    else if isTextChar c then return c :: (← readQuoted quote fuel)
    else failure

/-- Up to two quotes right after the closing quotes of a long string still belong to it. -/
def trailingQuotes (quote : Char) : Read Text := do
  if ← accept [quote, quote] then return [quote, quote]
  else if ← accept [quote] then return [quote]
  else return []

/-- A backslash at the end of a line joins it with the next text. -/
def acceptJoin : Read Bool := do
  let rest := (← get).dropWhile Text.isIndentChar
  if Text.startsWith "\n" rest || Text.startsWith "\r\n" rest then
    set rest
    skipJoined (← get).length
    return true
  else return false
where
  skipJoined : Nat → Read Unit
    | 0 => return ()
    | fuel + 1 => do
      skipBlanks
      if ← acceptNewline then skipJoined fuel

/-- A long string up to its three closing quotes. -/
def readLong (quote : Char) : Nat → Read Text
  | 0 => failure
  | fuel + 1 => do
    if ← accept [quote, quote, quote] then trailingQuotes quote
    else if ← acceptNewline then return '\n' :: (← readLong quote fuel)
    else
      let c ← take
      if c = '\\' && quote = '"' then
        if ← acceptJoin then readLong quote fuel
        else return (← readEscape) :: (← readLong quote fuel)
      else if isTextChar c then return c :: (← readLong quote fuel)
      else failure

/-- A string; a line end right after the opening quotes of a long one is not part of it. -/
def readString (quote : Char) : Read Text := do
  if ← accept [quote, quote, quote] then
    discard acceptNewline
    readLong quote ((← get).length + 1)
  else
    expect [quote]
    readQuoted quote ((← get).length + 1)

/-! ## Keys -/

def isKeyChar (c : Char) : Bool := c.isAlphanum || c == '_' || c == '-'

def readSimpleKey : Read Text := do
  let fuel := (← get).length + 1
  if ← accept "\"" then readQuoted '"' fuel
  else if ← accept "'" then readQuoted '\x27' fuel
  else
    let key ← takeWhile isKeyChar
    if key.isEmpty then failure else return key

def readKeys : Nat → Read (List Text)
  | 0 => failure
  | fuel + 1 => do
    skipBlanks
    let key ← readSimpleKey
    skipBlanks
    if ← accept "." then return key :: (← readKeys fuel) else return [key]

/-- Nothing nests deeper than this, and no key is longer. -/
def nestingLimit : Nat := 80

/-- A dotted key: the path and the last key. -/
def readKey : Read (List Text × Text) := do
  let keys ← readKeys ((← get).length + 1)
  if nestingLimit ≤ keys.length then failure
  let some key := keys.getLast? | failure
  return (keys.dropLast, key)

end Marginalia.Toml
