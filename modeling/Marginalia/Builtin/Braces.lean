import Marginalia.Language.Outline

/-! # Languages with braces: C, JavaScript and PHP

The family shares its comments. JavaScript has fewer declaration keywords than C, but a function may
stand in any expression; PHP keeps comments after a declaration apart from it.
-/

namespace Marginalia.Builtin

def declarationKeywords : List Text :=
  ["class", "function", "namespace", "public", "private", "protected", "abstract", "inline",
    "virtual", "void", "int", "double", "bool", "float"]

def declarationScope : Text := "^[ \\t]*(" ++ Text.join "|" declarationKeywords ++ ") \\w+"

def braceFeatures : List Feature :=
  [.brace, .inline "//" [], .block { start := "/\\*+", stop := "\\*+/" }, .decoration]

def c : Outline where
  name := "C"
  aliases := ["c++", "cpp"]
  extensions := ["c", "cpp", "h", "cc"]
  scopes := [declarationScope]
  features := braceFeatures

def javaScript : Outline where
  name := "JavaScript"
  aliases := ["js"]
  extensions := ["js"]
  scopes := ["^[ \\t]*(class)\\b", "^.*(function)[ \\t]*\\("]
  features := braceFeatures

def php : Outline where
  name := "PHP"
  extensions := ["php"]
  scopes := [declarationScope]
  features := braceFeatures
  removed := [Pass.mergeUp.name]

end Marginalia.Builtin
