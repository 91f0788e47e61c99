import Marginalia.Regex.Search
import Marginalia.Text.Markup
import Marginalia.Text.Number

/-! # Dividers

The code of all sections is highlighted in one piece, with a comment line between neighbours. The
highlighted text is cut where that comment line, as a highlighter marks it, stands.
-/

namespace Marginalia.Divider

def word : Text := "DIVIDER"

/-- What goes between the code of two sections. -/
def text (delimiter : Text) : Text := "\n" ++ delimiter ++ word ++ "\n"

/-- The comment as it stands inside its tag in highlighted text. -/
def comment (delimiter : Text) : Text := Text.escapeMarkup delimiter ++ word

def source (delimiter : Text) : Text :=
  "\\n*<span class=\"c1?\">" ++ Regex.escape (comment delimiter) ++ "</span>\\n*"

/-- A divider in highlighted text takes the newlines around it along. -/
def pattern (delimiter : Text) : Pattern :=
  let chars (t : Text) : List Pattern := t.map .char
  .sequence (
    [.star true (.char '\n')] ++ chars "<span class=\"c" ++ [.optional (.char '1')] ++
      chars ("\">" ++ comment delimiter ++ "</span>") ++ [.star true (.char '\n')])

def regex (delimiter : Text) : Regex := ⟨source delimiter, pattern delimiter, []⟩

example : Regex.compile? (source "//") = some (regex "//") := by decide +kernel

example : Regex.compile? (source "<%-&\\") = some (regex "<%-&\\") := by decide +kernel

/-- Whether a line is a divider: a short delimiter without letters, numbers and blanks, then the
word. -/
def isDividerLine (line : Text) : Bool :=
  match Text.beforeTail? word line with
  | none => false
  | some delimiter =>
    !delimiter.isEmpty && Text.size delimiter ≤ 3 &&
      !delimiter.any fun c => Text.isAlphanumeric c || Text.isBlankChar c

end Marginalia.Divider
