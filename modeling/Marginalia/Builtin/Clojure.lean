import Marginalia.Language.Outline

/-! # Clojure -/

namespace Marginalia.Builtin

def clojure : Outline where
  name := "Clojure"
  aliases := ["clojurescript"]
  extensions := ["cljs", "clj"]
  scopes := ["^[ \\t]*\\((def\\S*)(?:\\s+\\^:\\S*)*\\s+[^\\s\\)]*", "^[ \\t]*\\((ns)\\s+[^\\s\\)]*"]
  features := [
    .indent,
    .inline ";;" [],
    .docstring,
    .links [
      ("\\s*\\(def\\S*(?:\\s+\\^:\\S*)*\\s+(?P<name>[^\\s\\)]+)", nameTemplate),
      ("\\s*\\(ns\\s+(?P<name>[^\\s\\)]+)", nameTemplate)] "_"]
  -- A qualified name in the documentation leads to its namespace's page.
  docExtensions := [.namespaceLinks "\\S+/"]

end Marginalia.Builtin
