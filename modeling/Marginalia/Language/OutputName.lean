import Marginalia.Language.Basic
import Marginalia.Path

/-! # Output names

The name of the page that a source file is rendered to.
-/

namespace Marginalia.Language

def defaultSuffix : Text := ".html"

/-- Replaces a file name's extension, in any case, by a suffix; something has to stand before it. -/
def replaceExtension? (filename ext suffix : Text) : Option Text :=
  let dotted := '.' :: ext
  let cut := Text.size filename - Text.size dotted
  if 0 < cut && Text.eqIgnoringCase (Text.after cut filename) dotted then
    some (Text.upTo cut filename ++ suffix)
  else none

/-- The output name of a source file: a substitute for its file name if there is one, else the name
with the first fitting extension replaced, else the name as it is. -/
def outputName (l : Language) (filename suffix : Text) : Text :=
  match (Path.fileName? filename).bind l.substitutes.find? with
  | some output => Path.withFileName filename output
  | none =>
    (l.extensions.findSome? fun ext => replaceExtension? filename ext suffix).getD filename

end Marginalia.Language
