import Marginalia.Text.Basic

/-! # TOML values and tables

Tables are lists of entries in the order of the document. A table remembers how it came about, since
a header may complete only a table that was implied by a longer header, and a dotted key only one
that was made by dotted keys.
-/

namespace Marginalia.Toml

inductive Value where
  | string (t : Text)
  | integer (n : Int)
  | float (source : Text)
  | boolean (b : Bool)
  | datetime (t : Text)
  | array (items : List Value)
  /-- An inline table, which nothing extends. -/
  | inline (entries : List (Text × Value))
  | table (implicit dotted : Bool) (entries : List (Text × Value))
  /-- An array of tables, of which the last one is extended. -/
  | tables (elements : List (List (Text × Value)))

abbrev Entries := List (Text × Value)

namespace Entries

def find? (entries : Entries) (key : Text) : Option Value :=
  (List.find? (fun entry => entry.1 == key) entries).map (·.2)

/-- Binds a key, in its place if it is bound already. -/
def set (key : Text) (v : Value) : Entries → Entries
  | [] => [(key, v)]
  | entry :: rest => if entry.1 = key then (key, v) :: rest else entry :: set key v rest

/-- Applies `f` to the table that a path of keys leads to, through the last element of an array of
tables. Missing tables are made; they are implied by the path. -/
def descend (f : Entries → Option Entries) : List Text → Entries → Option Entries
  | [], entries => f entries
  | key :: path, entries => do
    match find? entries key with
    | none => return set key (.table true false (← descend f path [])) entries
    | some (.table implicit dotted inner) =>
      return set key (.table implicit dotted (← descend f path inner)) entries
    | some (.tables elements) =>
      let last ← elements.getLast?
      return set key (.tables (elements.dropLast ++ [← descend f path last])) entries
    | some _ => none

/-- Binds a dotted key to a value. The tables on the way are made by dotted keys, and so has to be
an older table that takes the last key, unless `plain` allows any. -/
def put (key : Text) (v : Value) (plain : Bool) : List Text → Entries → Option Entries
  | [], entries =>
    if plain && (find? entries key).isNone then some (entries ++ [(key, v)]) else none
  | first :: path, entries => do
    match find? entries first with
    | none => return entries ++ [(first, .table true true (← put key v true path []))]
    | some (.table true dotted inner) =>
      return set first (.table true dotted (← put key v dotted path inner)) entries
    | some (.tables elements) =>
      let last ← elements.getLast?
      return set first (.tables (elements.dropLast ++ [← put key v false path last])) entries
    | some _ => none

/-- Opens the table of a header, which may exist only as implied by longer headers. -/
def openTable (key : Text) (entries : Entries) : Option Entries :=
  match find? entries key with
  | none => some (entries ++ [(key, .table false false [])])
  | some (.table true false inner) => some (set key (.table false false inner) entries)
  | some _ => none

/-- Opens the next element of an array of tables. -/
def openElement (key : Text) (entries : Entries) : Option Entries :=
  match find? entries key with
  | none => some (entries ++ [(key, .tables [[]])])
  | some (.tables elements) => some (set key (.tables (elements ++ [[]])) entries)
  | some _ => none

end Entries

/-- A statement of a document, with its path of keys and the last key apart. -/
inductive Statement where
  | pair (path : List Text) (key : Text) (v : Value)
  | table (path : List Text) (key : Text)
  | element (path : List Text) (key : Text)

/-- Carries out a statement, given the path of the table that is open. -/
def Statement.apply (current : List Text) (entries : Entries) :
    Statement → Option (List Text × Entries)
  | pair path key v => do
    return (current, ← entries.descend (Entries.put key v true path) current)
  | table path key => do
    return (path ++ [key], ← entries.descend (Entries.openTable key) path)
  | element path key => do
    return (path ++ [key], ← entries.descend (Entries.openElement key) path)

/-- The table that the statements of a document make up. -/
def Entries.ofStatements (statements : List Statement) : Option Entries := do
  let final ← statements.foldlM (fun state s => s.apply state.1 state.2) ([], [])
  return final.2

end Marginalia.Toml
