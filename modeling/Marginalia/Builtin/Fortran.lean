import Marginalia.Language.Outline

/-! # Fortran -/

namespace Marginalia.Builtin

def fortran : Outline where
  name := "Fortran"
  extensions := ["f", "f90"]
  scopes := ["^[ \\t]*(subroutine) ", "^[ \\t]*(function)", "^[ \\t]*(module)",
    "^[ \\t]*(program)"]
  features := [
    .indent,
    -- In fixed form a `C` in the first column makes the line a comment.
    .block { start := "[Cc](?:[ \\t]|$)", stop := "$", firstColumn := true },
    .inline "!" []]

end Marginalia.Builtin
