import Marginalia.Registry.Logged
import Marginalia.Settings

/-! # Registries by settings -/

namespace Marginalia.Registry

/-- Gives the languages the extensions of the settings, in ascending order. -/
def applySettings (r : Registry) (s : Settings) : Except Error Registry :=
  s.extensions.entries.foldlM (fun r entry => r.aliasExtension entry.1 entry.2) r

/-- The built-in languages with the extensions of the settings. -/
def ofSettings (s : Settings) : Except Error Registry := do (← builtin).applySettings s

/-- Languages, if they could be built, with the extensions of the settings. -/
def ofBuiltLogged (built : Except Error (List Language)) (s : Settings) :
    Logged (Except Error Registry) :=
  match built with
  | .error e => return .error e
  | .ok languages => do
    match ← ofLanguagesLogged languages with
    | .error e => return .error e
    | .ok r => return r.applySettings s

def ofSettingsLogged (s : Settings) : Logged (Except Error Registry) :=
  ofBuiltLogged Builtin.languages s

theorem value_ofBuiltLogged (built : Except Error (List Language)) (s : Settings) :
    (ofBuiltLogged built s).value = (built >>= ofLanguages) >>= (·.applySettings s) := by
  cases built with
  | error e => rfl
  | ok languages =>
    rw [ofBuiltLogged, Logged.value_bind, value_ofLanguagesLogged]
    change _ = (ofLanguages languages).bind (·.applySettings s)
    cases ofLanguages languages <;> rfl

theorem value_ofSettingsLogged (s : Settings) : (ofSettingsLogged s).value = ofSettings s :=
  value_ofBuiltLogged Builtin.languages s

end Marginalia.Registry
