import Marginalia.Language.Basic
import Marginalia.Render.Highlighter
import Marginalia.Render.Paragraph

/-! # Rendering sections

Documentation and code of each section are rendered side by side. Where the highlighter loses or
adds dividers, the code is shown without highlighting.
-/

namespace Marginalia.Render

/-- Highlights the code of every section, one fragment each. -/
def highlightSections (l : Language) (sections : List Section) (h : Highlighter) :
    Except Error (List Text) :=
  if sections.isEmpty then .ok []
  else
    match l.inlineDelimiter? with
    | none => .ok (sections.map fun s => h.highlight s.code l.name)
    | some delimiter =>
      let joined := Text.join (Divider.text delimiter) (sections.map (·.code))
      let fragments := (Divider.regex delimiter).split (h.highlight joined l.name)
      if fragments.length = sections.length then .ok fragments
      else .error (.dividerMismatch l.name sections.length fragments.length)

/-- The link target that goes before the code of a section. -/
def anchorMarkup (anchor : Text) : Text :=
  let id := Text.escapeAttribute anchor
  "<a class=\"section-anchor\" id=\"" ++ id ++ "\" href=\"#" ++ id ++ "\"></a>"

structure RenderedSection where
  docs : Text
  code : Text
  anchor : Option Text
  deriving DecidableEq

def renderSection (l : Language) (r : DocRenderer) (s : Section) (code : Text) :
    RenderedSection where
  docs := r.render s.docs l.docExtensions
  code := match s.anchor? with
    | none => code
    | some anchor => anchorMarkup anchor ++ code
  anchor := s.anchor?

/-- The fragments of the sections, without highlighting if the highlighter fails. -/
def fragments (l : Language) (sections : List Section) (h : Highlighter) : List Text :=
  match highlightSections l sections h with
  | .ok fragments => fragments
  | .error _ => sections.map fun s => Text.escapeMarkup s.code

def renderSections (l : Language) (sections : List Section) (h : Highlighter) (r : DocRenderer) :
    List RenderedSection :=
  sections.zipWith (renderSection l r) (fragments l sections h)

/-- As `renderSections`, with a record where highlighting fails. -/
def renderLogged (l : Language) (sections : List Section) (h : Highlighter) (r : DocRenderer) :
    Logged (List RenderedSection) := do
  match highlightSections l sections h with
  | .ok _ => pure ()
  | .error e => Logged.note .warn (e.message ++ "; rendering code without highlighting")
  return renderSections l sections h r

theorem value_renderLogged (l : Language) (sections : List Section) (h : Highlighter)
    (r : DocRenderer) : (renderLogged l sections h r).value = renderSections l sections h r := by
  rw [renderLogged]
  split <;> rfl

end Marginalia.Render
