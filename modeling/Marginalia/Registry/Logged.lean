import Marginalia.Registry.Basic

/-! # Registries with records

The operations that leave a record: a language that is registered, and a file that neither a forced
name nor its extension decides.
-/

namespace Marginalia.Registry

def addLogged (r : Registry) (l : Language) : Logged (Except Error Registry) := do
  let added := r.add l
  match added with
  | .ok _ =>
    Logged.note .debug ("registered " ++ l.name ++ " (" ++ Text.join ", " l.extensions ++ ")")
  | .error _ => pure ()
  return added

def addAllLogged (r : Registry) : List Language → Logged (Except Error Registry)
  | [] => return .ok r
  | l :: rest => do
    match ← r.addLogged l with
    | .ok r => r.addAllLogged rest
    | .error e => return .error e

def ofLanguagesLogged (languages : List Language) : Logged (Except Error Registry) :=
  addAllLogged {} languages

/-- What a look-up without a forced name and a known extension comes to. -/
def lookupRecord (r : Registry) (filename : Text) (guessed : Option Text) : Text :=
  match guessed with
  | none => filename ++ ": no language"
  | some name =>
    filename ++ ": content looks like " ++ name ++ ", " ++
      if (r.byName? name).isSome then "supported" else "unsupported"

def lookupLogged (r : Registry) (filename : Text) (content forced : Option Text)
    (guess? : Option (Text → Option Text)) : Logged (Except Error (Option Language)) := do
  if forced.isNone && (r.detect? filename).isNone then
    let guessed := do (← guess?) (← content)
    Logged.note .debug (r.lookupRecord filename guessed)
  return r.lookup filename content forced guess?

theorem value_addLogged (r : Registry) (l : Language) : (r.addLogged l).value = r.add l := by
  rw [addLogged]
  split <;> rfl

theorem value_ofLanguagesLogged (languages : List Language) :
    (ofLanguagesLogged languages).value = ofLanguages languages := by
  rw [ofLanguagesLogged, ofLanguages]
  generalize ({} : Registry) = r
  induction languages generalizing r with
  | nil => rfl
  | cons l rest ih =>
    rw [addAllLogged, Logged.value_bind, value_addLogged, List.foldlM_cons]
    cases r.add l with
    | error e => rfl
    | ok r => exact ih r

theorem value_lookupLogged (r : Registry) (filename : Text) (content forced : Option Text)
    (guess? : Option (Text → Option Text)) :
    (r.lookupLogged filename content forced guess?).value =
      r.lookup filename content forced guess? := by
  rw [lookupLogged]
  split <;> rfl

end Marginalia.Registry
