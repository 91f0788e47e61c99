import Marginalia.Language.Outline

/-! # Ruby -/

namespace Marginalia.Builtin

def ruby : Outline where
  name := "Ruby"
  extensions := ["rb"]
  scopes := ["^[ \\t]*(module) ", "^[ \\t]*(class) ", "^[ \\t]*(def) "]
  features := [.indent, .inline "#" [], .block { start := "=begin", stop := "=end" }]

end Marginalia.Builtin
