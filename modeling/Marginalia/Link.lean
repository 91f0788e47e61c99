import Marginalia.Error
import Marginalia.Regex.Template
import Marginalia.Section

/-! # Links to sections

A link rule reads an anchor off the code at the start of a section.
-/

namespace Marginalia

structure LinkRule where
  pattern : Regex
  template : Text

namespace LinkRule

def compile (pattern template : Text) : Except Error LinkRule := do
  return ⟨← Regex.compile ("\\A(?:" ++ pattern ++ ")"), template⟩

/-- The template expanded by a match at the start of the code; an empty anchor is none. -/
def anchor? (rule : LinkRule) (code : Text) : Option Text := do
  let m ← rule.pattern.find code
  let anchor := rule.pattern.expand code m rule.template
  if anchor.isEmpty then none else some anchor

/-- Annotates each section with the anchor of the first rule that gives one. -/
def annotate (rules : List LinkRule) (head : Text) (sections : List Section) : List Section :=
  sections.map fun s =>
    match rules.findSome? fun rule => rule.anchor? s.code with
    | none => s
    | some anchor =>
      { s with annotations := s.annotations.insert Section.anchorKey (head ++ anchor) }

end LinkRule

end Marginalia
