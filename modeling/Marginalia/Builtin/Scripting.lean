import Marginalia.Language.Outline

/-! # Languages known by their comments alone

Their sections follow the comments; nothing is split at scopes.
-/

namespace Marginalia.Builtin

def lua : Outline where
  name := "Lua"
  extensions := ["lua"]
  features := [
    -- Two brackets after the dashes open a paired comment.
    .inline "--" ["\\[\\[", "\\]\\]"],
    .block { start := "--\\[\\[", stop := "(?:--)?\\]\\]" }]

def erlang : Outline where
  name := "Erlang"
  extensions := ["erl"]
  features := [.inline "%%" []]

def tcl : Outline where
  name := "Tcl"
  extensions := ["tcl"]
  features := [.inline "#" []]

def coffeeScript : Outline where
  name := "Coffee-Script"
  aliases := ["CoffeeScript"]
  extensions := ["coffee"]
  features := [.inline "#" ["#"], .block { start := "###", stop := "###" }]

def perl : Outline where
  name := "Perl"
  extensions := ["pl"]
  features := [.inline "#" ["!.+"]]

def sql : Outline where
  name := "SQL"
  extensions := ["sql"]
  features := [.inline "--" []]

def scheme : Outline where
  name := "Scheme"
  extensions := ["scm"]
  features := [.inline ";;" [], .block { start := "#\\|", stop := "\\|#" }]

end Marginalia.Builtin
