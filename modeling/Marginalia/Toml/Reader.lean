import Marginalia.Toml.Datetime
import Marginalia.Toml.Number

/-! # Reading TOML documents -/

namespace Marginalia.Toml

/-- A value that is neither array nor inline table. -/
def readScalarValue : Read Value := do
  match ← peek with
  | none => failure
  | some c =>
    if c = '"' || c = '\x27' then return .string (← readString c)
    else if ← accept "true" then return .boolean true
    else if ← accept "false" then return .boolean false
    else if c = 'i' || c = 'n' then readFloat
    else if c.isDigit || c = '+' || c = '-' then readDatetime <|> readFloat <|> readInteger
    else failure

mutual

def readValue : Nat → Nat → Read Value
  | 0, _ => failure
  | fuel + 1, depth => do
    match ← peek with
    | some '[' =>
      discard take
      if nestingLimit ≤ depth + 1 then failure
      return .array (← readItems fuel (depth + 1))
    | some '\x7b' =>
      discard take
      if nestingLimit ≤ depth + 1 then failure
      skipBlanks
      if ← accept "\x7d" then return .inline []
      return .inline (← readPairs fuel (depth + 1) [])
    | _ => readScalarValue

/-- The items of an array after its opening bracket; a comma may follow the last one. -/
def readItems : Nat → Nat → Read (List Value)
  | 0, _ => failure
  | fuel + 1, depth => do
    skipLines ((← get).length + 1)
    if ← accept "]" then return []
    let item ← readValue fuel depth
    skipLines ((← get).length + 1)
    if ← accept "," then return item :: (← readItems fuel depth)
    expect "]"
    return [item]

/-- The pairs of an inline table after its opening brace, on one line and without a last comma. -/
def readPairs : Nat → Nat → Entries → Read Entries
  | 0, _, _ => failure
  | fuel + 1, depth, entries => do
    let (path, key) ← readKey
    expect "="
    skipBlanks
    let v ← readValue fuel depth
    skipBlanks
    let some entries := Entries.put key v true path entries | failure
    if ← accept "," then readPairs fuel depth entries
    else
      expect "\x7d"
      return entries

end

def readPair : Read Statement := do
  let (path, key) ← readKey
  expect "="
  skipBlanks
  return .pair path key (← readValue ((← get).length + 1) 0)

def readStatement : Read Statement := do
  if ← accept "[[" then
    let (path, key) ← readKey
    expect "]]"
    return .element path key
  else if ← accept "[" then
    let (path, key) ← readKey
    expect "]"
    return .table path key
  else readPair

def readStatements : Nat → Read (List Statement)
  | 0 => failure
  | fuel + 1 => do
    skipBlanks
    match ← peek with
    | none => return []
    | some c =>
      if c = '#' || c = '\n' || c = '\r' then
        endStatement
        readStatements fuel
      else
        let s ← readStatement
        endStatement
        return s :: (← readStatements fuel)

/-- The byte order mark that a document may start with. -/
def byteOrderMark : Char := Char.ofNat 0xFEFF

/-- The table of a whole document. -/
def read? (t : Text) : Option Entries := do
  let t := match t with
    | [] => []
    | c :: rest => if c = byteOrderMark then rest else t
  let (statements, _) ← (readStatements (t.length + 1)).run t
  Entries.ofStatements statements

end Marginalia.Toml
