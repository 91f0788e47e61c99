import Marginalia.Builtin.All
import Marginalia.Path

/-! # Registries

A registry holds languages by name and knows for each extension the language that claims it. An
operation that fails leaves the registry as it was.
-/

namespace Marginalia

structure Registry where
  languages : Table Language := ∅
  /-- The name of the language that an extension belongs to. -/
  owners : Table Text := ∅

namespace Registry

/-- Refuses an extension that belongs to another language. -/
def ensureFree (r : Registry) (ext name : Text) : Except Error Unit :=
  match r.owners.find? ext with
  | none => .ok ()
  | some owner => if owner = name then .ok () else .error (.duplicateExtension ext owner name)

/-- Adds a language if none of its extensions belongs to another one. -/
def add (r : Registry) (l : Language) : Except Error Registry := do
  l.extensions.forM fun ext => r.ensureFree ext l.name
  return {
    languages := r.languages.insert l.name l
    owners := l.extensions.foldl (fun owners ext => owners.insert ext l.name) r.owners }

def ofLanguages (languages : List Language) : Except Error Registry := languages.foldlM add {}

/-- The language of a name: by its own name, else the first in the order of names that answers to it.
What another order comes to is told in `run_performAmong`. -/
def byName? (r : Registry) (name : Text) : Option Language :=
  match r.languages.find? name with
  | some l => some l
  | none => r.languages.values.find? (·.answersTo name)

/-- Gives a language that is registered one more extension. -/
def aliasExtension (r : Registry) (ext name : Text) : Except Error Registry := do
  match r.byName? name with
  | none => .error (.unknownLanguage name)
  | some found =>
    let ext := Language.normalizeExtension ext
    r.ensureFree ext found.name
    let languages := match r.languages.find? found.name with
      | none => r.languages
      | some l =>
        if ext ∈ l.extensions then r.languages
        else r.languages.insert found.name (l.addExtension ext)
    return { languages, owners := r.owners.insert ext found.name }

/-- The language that claims the extension of a file. -/
def detect? (r : Registry) (filename : Text) : Option Language := do
  let ext ← Path.extension? filename
  let name ← r.owners.find? (Text.toLower ext)
  r.languages.find? name

/-- The names of the languages in ascending order. -/
def names (r : Registry) : List Text := r.languages.keys

def builtin : Except Error Registry := do ofLanguages (← Builtin.languages)

/-- The language of a file: the forced one, which has to exist; else by its extension; else by the
guess on its content. -/
def lookup (r : Registry) (filename : Text) (content forced : Option Text)
    (guess? : Option (Text → Option Text)) : Except Error (Option Language) :=
  match forced with
  | some name =>
    match r.byName? name with
    | none => .error (.unknownLanguage name)
    | some l => .ok (some l)
  | none =>
    match r.detect? filename with
    | some l => .ok (some l)
    | none =>
      .ok do
        let content ← content
        let guess? ← guess?
        r.byName? (← guess? content)

end Registry

end Marginalia
