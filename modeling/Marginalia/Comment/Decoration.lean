import Marginalia.Regex.Template
import Marginalia.Section

/-! # Comment decoration

Boxes are drawn around comments by runs of slashes or stars at the start of each line.
-/

namespace Marginalia.Decoration

def source : Text := "(?m)^[ \\t]*(?:/+|\\*+)([ \\t].*)?$"

def pattern : Pattern :=
  .sequence [
    .look .lineStart,
    .indent,
    .alt (.plus true (.char '/')) (.plus true (.char '*')),
    .optional (.group 1 (.seq (.set .indent) (.star true (.set .notNewline)))),
    .look .lineEnd]

def regex : Regex := ⟨source, pattern, []⟩

example : Regex.compile? source = some regex := by decide +kernel

/-- Removes the decoration that a line starts with and keeps what follows it. -/
def strip (docs : Text) : Text :=
  regex.replaceAll (fun m => regex.expand docs m "$\x7b1\x7d") docs

/-- Strips the documentation of every section that has any. -/
def stripAll (sections : List Section) : List Section :=
  sections.map fun s => if s.hasDocs then { s with docs := strip s.docs } else s

end Marginalia.Decoration
