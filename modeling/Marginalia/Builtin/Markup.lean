import Marginalia.Language.Outline

/-! # Plain text and Markdown -/

namespace Marginalia.Builtin

def plainText : Outline where
  name := "PlainText"
  kind := .prose
  aliases := ["text"]
  extensions := ["txt"]
  substitutes := [("index.txt", "index.html")]

def markdown : Outline where
  name := "Markdown"
  kind := .prose
  extensions := ["md", "markdown"]
  substitutes := [("index.md", "index.html")]

end Marginalia.Builtin
