import Marginalia.Language.OutputName
import Marginalia.Toml.Reader

/-! # Settings

Settings are read from a TOML document. Keys that mean nothing here are ignored; a known key has to
have a value of its type.
-/

namespace Marginalia

structure Settings where
  /-- Replaces the extension of a source file. -/
  outputSuffix : Text := Language.defaultSuffix
  /-- The language of every file, by name. -/
  language : Option Text := none
  /-- Further extensions and the names of their languages. -/
  extensions : Table Text := ∅
  deriving DecidableEq

namespace Settings

open Toml

def asString : Value → Option Text
  | .string t => some t
  | _ => none

/-- The key under which a date stands when it is taken for a table. -/
def datetimeKey : Text := "$__toml_private_datetime"

/-- The entries of a value that is a table. -/
def asEntries : Value → Option Entries
  | .inline entries => some entries
  | .table _ _ entries => some entries
  | .datetime t => some [(datetimeKey, .string t)]
  | _ => none

/-- A table of strings. -/
def asStrings (v : Value) : Option (Table Text) := do
  let entries ← asEntries v
  let pairs ← entries.mapM fun entry => (asString entry.2).map (entry.1, ·)
  return Table.ofList pairs

/-- Normalizes the keys in ascending order; of keys that become equal, the last one wins. -/
def normalizeKeys (t : Table Text) : Table Text :=
  Table.ofList (t.entries.map fun entry => (Language.normalizeExtension entry.1, entry.2))

def ofEntries? (entries : Entries) : Option Settings := do
  let outputSuffix ← match Entries.find? entries "output_suffix" with
    | none => some Language.defaultSuffix
    | some v => asString v
  let language ← match Entries.find? entries "language" with
    | none => some none
    | some v => (asString v).map some
  let extensions ← match Entries.find? entries "extensions" with
    | none => some ∅
    | some v => asStrings v
  return { outputSuffix, language, extensions := normalizeKeys extensions }

def parse (t : Text) : Except Error Settings :=
  match (Toml.read? t).bind ofEntries? with
  | none => .error .settings
  | some s => .ok s

/-! ## The settings file -/

def fileName : Text := ".sidenote.toml"

/-- Where the settings are, given the home directory. -/
def path? (home : Option Text) : Option Text := home.map fun dir => Path.below dir fileName

/-- What stands at a path of the file system. -/
inductive FileState where
  | missing
  | directory
  | file (content : ByteArray)

/-- Reads the settings from a file. -/
def ofFile : FileState → Except Error Settings
  | .file content =>
    match String.fromUTF8? content with
    | none => .error .unreadable
    | some s => parse s.toList
  | _ => .error .unreadable

/-- The settings of a home directory, or the default ones where they cannot be read. A file that is
there leaves a record. -/
def load (home : Option Text) (file : FileState) : Logged Settings :=
  match path? home, file with
  | some path, .file _ =>
    match ofFile file with
    | .ok s => do
      Logged.note .debug ("loaded config from " ++ path)
      return s
    | .error e => do
      Logged.note .warn ("ignoring " ++ path ++ ": " ++ e.message)
      return {}
  | _, _ => return {}

end Settings

end Marginalia
