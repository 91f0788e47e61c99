import Marginalia.Language.Outline

/-! # Haskell

Splitting by indentation would tear documentation comments apart, so sections follow the comments
alone.
-/

namespace Marginalia.Builtin

def haskell : Outline where
  name := "Haskell"
  extensions := ["hs"]
  features := [
    -- Chapter headings stay code.
    .inline "--" ["( (\\*)* .*)"],
    .block { start := "\\\x7b-", stop := "-\\\x7d", ignored := some ("#", "#") }]
  docExtensions := [.haddock]

end Marginalia.Builtin
