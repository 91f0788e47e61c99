import Marginalia.DocExtension
import Marginalia.Text.Lines
import Marginalia.Text.Markup

/-! # Rendering documentation

A renderer turns documentation into markup, with some extensions turned on. The plain one writes
each run of lines that are not blank as a paragraph.
-/

namespace Marginalia

structure DocRenderer where
  render : Text → List DocExtension → Text

namespace DocRenderer

/-- The paragraphs of the rows, the first of them opened by the rows `current`. -/
def paragraphsFrom (current : List Text) : List Text → List Text
  | [] => if current.isEmpty then [] else [Text.join "\n" current]
  | row :: rest =>
    if Text.isBlank row then
      if current.isEmpty then paragraphsFrom [] rest
      else Text.join "\n" current :: paragraphsFrom [] rest
    else paragraphsFrom (current ++ [Text.trimEnd row]) rest

def paragraphs (docs : Text) : List Text := paragraphsFrom [] (Text.rows docs)

def plainRender (docs : Text) : Text :=
  Text.join "\n" ((paragraphs docs).map fun p => "<p>" ++ Text.escapeMarkup p ++ "</p>")

def plain : DocRenderer := ⟨fun docs _ => plainRender docs⟩

end DocRenderer

end Marginalia
