import Marginalia.Text.Blank

/-! # Lines

A line keeps the newline that ends it, so that the lines of a text concatenate to the text. The
content of a line is the line without its ending, `\n` or `\r\n`.
-/

namespace Marginalia.Text

/-- The lines of a text, each with its newline; a final newline opens no further line. -/
def lines : Text → List Text
  | [] => []
  | c :: t =>
    if c = '\n' then [c] :: lines t
    else
      match lines t with
      | [] => [[c]]
      | line :: rest => (c :: line) :: rest

@[simp] theorem lines_nil : lines [] = [] := rfl

@[simp] theorem flatten_lines (t : Text) : (lines t).flatten = t := by
  induction t with
  | nil => rfl
  | cons c t ih =>
    rw [lines]
    split
    · simp [ih]
    · split <;> rename_i h <;> simp_all

theorem ne_nil_of_mem_lines {t line : Text} (h : line ∈ lines t) : line ≠ [] := by
  induction t generalizing line with
  | nil => simp at h
  | cons c t ih =>
    rw [lines] at h
    split at h
    · rcases List.mem_cons.1 h with rfl | h
      · simp
      · exact ih h
    · split at h <;> rename_i hl
      · simp_all
      · rcases List.mem_cons.1 h with rfl | h
        · simp
        · exact ih (hl ▸ List.mem_cons_of_mem _ h)

/-- A line without its ending. A carriage return belongs to the ending only before a newline. -/
def lineContent (line : Text) : Text :=
  match beforeTail? "\n" line with
  | none => line
  | some body => (beforeTail? "\r" body).getD body

/-- The contents of the lines of a text. -/
def rows (t : Text) : List Text := (lines t).map lineContent

/-- The leading spaces and tabs of the first row that is not blank. -/
def indent (t : Text) : Text :=
  match (rows t).find? fun row => !isBlank row with
  | none => []
  | some row => row.takeWhile isIndentChar

def indentWidth (t : Text) : Nat := size (indent t)

theorem all_isIndentChar_indent (t : Text) : (indent t).all isIndentChar = true := by
  rw [indent]
  split
  · rfl
  · exact List.all_takeWhile

end Marginalia.Text
