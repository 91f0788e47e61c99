import Marginalia.Regex.Search

/-! # Templates

A template is text with references to the groups of a match: `$name`, with the longest name that
can be read, or a name in braces after the dollar sign. Two dollar signs stand for one, and one that
starts no reference stands for itself.
-/

namespace Marginalia.Regex

def isReferenceChar (c : Char) : Bool := c.isAlphanum || c == '_'

/-- The number of a reference, unless it has to be looked up as a name. -/
def referenceNumber? (name : Text) : Option Nat :=
  let digits := (Text.afterHead? "+" name).getD name
  if digits.isEmpty || !digits.all Char.isDigit then none else some (Text.valueIn 10 digits)

/-- The text of the group that a reference means; a group unknown or without part is empty. -/
def resolve (re : Regex) (t : Text) (m : Match) (name : Text) : Text :=
  let number? := (referenceNumber? name).or ((re.names.find? (·.1 == name)).map (·.2))
  ((number?.bind fun n => m.group? t n).getD [])

/-- The name after a dollar sign and what follows the reference. -/
def reference? : Text → Option (Text × Text)
  | '\x7b' :: rest =>
    let name := rest.takeWhile (· != '\x7d')
    match rest.dropWhile (· != '\x7d') with
    | [] => none
    | _ :: after => some (name, after)
  | rest =>
    let name := rest.takeWhile isReferenceChar
    if name.isEmpty then none else some (name, rest.dropWhile isReferenceChar)

/-- Expands a template by the groups of a match, in at most `fuel` steps. -/
def expandFrom (re : Regex) (t : Text) (m : Match) : Nat → Text → Text
  | 0, _ => []
  | _, [] => []
  | fuel + 1, '$' :: '$' :: rest => '$' :: expandFrom re t m fuel rest
  | fuel + 1, '$' :: rest =>
    match reference? rest with
    | none => '$' :: expandFrom re t m fuel rest
    | some (name, after) => re.resolve t m name ++ expandFrom re t m fuel after
  | fuel + 1, c :: rest => c :: expandFrom re t m fuel rest

def expand (re : Regex) (t : Text) (m : Match) (template : Text) : Text :=
  expandFrom re t m template.length template

end Marginalia.Regex
