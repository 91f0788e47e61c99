import Marginalia.Regex.Search
import Marginalia.Text.Numeral

/-! # Errors

Each error is a cause; `Error.message` words it.
-/

namespace Marginalia

inductive Error where
  /-- No registered language answers to the name. -/
  | unknownLanguage (name : Text)
  /-- A second language claims an extension. -/
  | duplicateExtension (extension first second : Text)
  /-- The pipeline has no pass of the name. -/
  | unknownPass (name : String)
  | invalidPattern (pattern : Text)
  /-- A highlighter's output falls apart into the wrong number of fragments. -/
  | dividerMismatch (language : Text) (expected found : Nat)
  /-- The settings are not a document of the expected form. -/
  | settings
  /-- The settings file cannot be read. -/
  | unreadable
  deriving DecidableEq

def Error.message : Error → Text
  | unknownLanguage name => "Unknown forced language: " ++ name
  | duplicateExtension extension first second =>
    "Extension ." ++ extension ++ " is claimed by both " ++ first ++ " and " ++ second
  | unknownPass name => "No pass named " ++ name ++ " in pipeline"
  | invalidPattern pattern => "Invalid pattern " ++ pattern
  | dividerMismatch language expected found =>
    "Highlighter returned " ++ Text.ofNat found ++ " sections for " ++ language ++ ", expected "
      ++ Text.ofNat expected
  | settings => "Config error"
  | unreadable => "I/O error"

/-- Compiles a pattern; a refused pattern is the error's cause. -/
def Regex.compile (source : Text) : Except Error Regex :=
  match Regex.compile? source with
  | some re => .ok re
  | none => .error (.invalidPattern source)

end Marginalia
