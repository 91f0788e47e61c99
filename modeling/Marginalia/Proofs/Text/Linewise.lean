import Marginalia.Proofs.Text.Break

/-! # Work done line by line

Between newlines stand the lines of a text in the plain sense: no line holds its newline, and a
newline at the end is followed by an empty line. What is done to each line with its newline, and
lets that newline alone, is done to these lines as well (`splitOn_flatMap_lines`).
-/

namespace Marginalia.Text

section Linewise

variable {f g : Text → Text}

/-- Whatever `g` makes of a line and its newline, it is what `f` makes of the line by itself. -/
structure Linewise (f g : Text → Text) : Prop where
  row : ∀ r, '\n' ∉ r → g r = f r
  newline : ∀ r, '\n' ∉ r → g (r ++ ['\n']) = f r ++ ['\n']
  not_mem : ∀ r, '\n' ∉ r → '\n' ∉ f r
  nil : f [] = []

theorem splitOn_flatMap_lines (h : Linewise f g) (t : Text) :
    ((lines t).flatMap g).splitOn '\n' = (t.splitOn '\n').map f := by
  induction t using rows_induction with
  | row r hr =>
    rw [List.splitOn_eq_singleton hr, List.map_singleton]
    by_cases hne : r = []
    · subst hne
      rw [h.nil]
      rfl
    · rw [lines_row hr hne, List.flatMap_singleton, h.row r hr,
        List.splitOn_eq_singleton (h.not_mem r hr)]
  | newline r t hr ih =>
    rw [lines_newline hr, List.flatMap_cons, h.newline r hr, List.append_assoc,
      List.singleton_append, List.splitOn_append_cons_self_of_not_mem (h.not_mem r hr), ih,
      List.splitOn_append_cons_self_of_not_mem hr, List.map_cons]

end Linewise

theorem isBlank_concat_newline (row : Text) : isBlank (row ++ ['\n']) = isBlank row := by
  rw [isBlank_append]
  exact Bool.and_true _

theorem isBlank_eq_all_splitOn (t : Text) : isBlank t = (t.splitOn '\n').all isBlank := by
  induction t using rows_induction with
  | row r hr => rw [List.splitOn_eq_singleton hr, List.all_cons, List.all_nil, Bool.and_true]
  | newline r t hr ih =>
    rw [List.splitOn_append_cons_self_of_not_mem hr, List.all_cons, ← ih, isBlank_append]
    rfl

theorem takeWhile_concat_newline (row : Text) :
    (row ++ ['\n']).takeWhile isIndentChar = row.takeWhile isIndentChar := by
  rw [List.takeWhile_append]
  split
  · rename_i hlength
    exact (List.append_nil _).trans (List.takeWhile_prefix _ |>.eq_of_length hlength).symm
  · rfl

/-! ## The first line that is not blank -/

def firstInked (rows : List Text) : Option Text := rows.find? fun row => !isBlank row

/-- The spaces and tabs at the start of the first line that is not blank. -/
def margin (t : Text) : Text := ((firstInked (t.splitOn '\n')).getD []).takeWhile isIndentChar

theorem indent_eq (t : Text) :
    indent t =
      (((lines t).find? fun line => !isBlank line).getD []).takeWhile isIndentChar := by
  have hfind : (rows t).find? (fun row => !isBlank row) =
      ((lines t).find? fun line => !isBlank line).map lineContent := by
    rw [rows, List.find?_map]
    simp only [Function.comp_def, isBlank_lineContent]
  rw [indent, hfind]
  cases (lines t).find? fun line => !isBlank line with
  | none => rfl
  | some line => exact takeWhile_lineContent line

theorem indent_eq_margin (t : Text) : indent t = margin t := by
  rw [indent_eq, margin, firstInked]
  induction t using rows_induction with
  | row r hr =>
    rw [List.splitOn_eq_singleton hr]
    by_cases hne : r = []
    · subst hne
      rfl
    · rw [lines_row hr hne]
  | newline r t hr ih =>
    rw [lines_newline hr, List.splitOn_append_cons_self_of_not_mem hr, List.find?_cons,
      List.find?_cons, isBlank_concat_newline]
    cases isBlank r with
    | true => exact ih
    | false => exact takeWhile_concat_newline r

end Marginalia.Text
