import Marginalia.Language.Outline

/-! # Python -/

namespace Marginalia.Builtin

/-- The decorator lines that stand before a declaration once they are merged into its section. -/
def decoratorLines : Text := "(?:[ \\t]*@[^\\n]*\\n)*"

def python : Outline where
  name := "Python"
  aliases := ["python3"]
  extensions := ["py", "pyx"]
  -- A package's own module is the index of its directory.
  substitutes := [("__init__.py", "index.html")]
  scopes := ["^[ \\t]*(?:async[ \\t]+)?(def) ", "^[ \\t]*(class) ", "^[ \\t]*(@\\w+)"]
  features := [
    .indent,
    .block { start := "\"\"\"", stop := "\"\"\"" },
    .block { start := "'''", stop := "'''" },
    -- Shebangs and declarations of the encoding stay code.
    .inline "#" ["!.+", "\\s*-\\*-\\s*coding:.+\\s*-\\*-"],
    .decorators "@",
    .links [
      ("\\s*" ++ decoratorLines ++ "[ \\t]*(?:async[ \\t]+)?def\\s+(?P<name>\\w+)", nameTemplate),
      ("\\s*" ++ decoratorLines ++ "[ \\t]*class\\s+(?P<name>\\w+)", nameTemplate)] ""]

end Marginalia.Builtin
