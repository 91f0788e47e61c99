import Marginalia.Builtin.Braces
import Marginalia.Builtin.Clojure
import Marginalia.Builtin.Fortran
import Marginalia.Builtin.Haskell
import Marginalia.Builtin.Markup
import Marginalia.Builtin.Python
import Marginalia.Builtin.Ruby
import Marginalia.Builtin.Scripting

/-! # The built-in languages -/

namespace Marginalia.Builtin

/-- In the order in which they are registered. -/
def outlines : List Outline :=
  [plainText, markdown, python, fortran, php, c, javaScript, ruby, haskell, lua, erlang, tcl,
    coffeeScript, perl, sql, scheme, clojure]

def languages : Except Error (List Language) := outlines.mapM Outline.build

/-- Every built-in outline builds. -/
example : languages.toBool = true := by decide +kernel

end Marginalia.Builtin
