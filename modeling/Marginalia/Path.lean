import Marginalia.Text.Basic

/-! # File paths

Components of a path stand between slashes. An empty component or a dot alone is idle: it names
nothing, and only the slash or the dot at the very start of a path counts.
-/

namespace Marginalia.Path

/-- The leading slash or dot of a path, and the rest. -/
def divide : Text → Text × Text
  | '/' :: rest => (['/'], rest)
  | ['.'] => (['.'], [])
  | '.' :: '/' :: rest => (['.'], '/' :: rest)
  | path => ([], path)

/-- The texts between slashes. -/
def components : Text → List Text
  | [] => [[]]
  | c :: t =>
    if c = '/' then [] :: components t
    else
      match components t with
      | [] => [[c]]
      | first :: rest => (c :: first) :: rest

def isIdle (component : Text) : Bool := component.isEmpty || component == ['.']

/-- The components after the leading slash or dot, from the last one that is not idle backwards. -/
def backward (path : Text) : List Text := (components (divide path).2).reverse.dropWhile isIdle

/-- The last component, unless it leads to the parent directory. -/
def fileName? (path : Text) : Option Text :=
  match backward path with
  | [] => none
  | name :: _ => if name = ['.', '.'] then none else some name

/-- What follows the last dot of the file name; a name that only starts with a dot has none. -/
def extension? (path : Text) : Option Text := do
  let name ← fileName? path
  let after := (name.reverse.takeWhile (· != '.')).reverse
  match name.length - after.length with
  | 0 => none
  | 1 => none
  | _ => some after

/-- The path without its last component and the idle ones around it. -/
def parent (path : Text) : Text :=
  (divide path).1 ++ Text.join ['/'] (((backward path).drop 1).dropWhile isIdle).reverse

/-- A path below another; an absolute path replaces it. -/
def below (base path : Text) : Text :=
  if path.head? = some '/' then path
  else if base.isEmpty || base.getLast? = some '/' then base ++ path
  else base ++ '/' :: path

/-- The path with another file name, in place of the one it has, if any. -/
def withFileName (path name : Text) : Text :=
  below (if (fileName? path).isSome then parent path else path) name

end Marginalia.Path
