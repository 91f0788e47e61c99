import Marginalia.Text.Basic

/-! # Text in markup

The characters that would be read as markup are written as entities.
-/

namespace Marginalia.Text

def escapeChar : Char → Text
  | '&' => "&amp;"
  | '<' => "&lt;"
  | '>' => "&gt;"
  | c => [c]

def escapeMarkup (t : Text) : Text := t.flatMap escapeChar

/-- Inside double quotes the quote is written as an entity too. -/
def escapeAttribute (t : Text) : Text :=
  t.flatMap fun c => if c = '"' then "&quot;" else escapeChar c

@[simp] theorem escapeMarkup_nil : escapeMarkup [] = [] := rfl

@[simp] theorem escapeMarkup_append (s t : Text) :
    escapeMarkup (s ++ t) = escapeMarkup s ++ escapeMarkup t := by
  simp [escapeMarkup]

end Marginalia.Text
