import Marginalia.Proofs.Text.Break

/-! # Indentation of the lines of a text

How deep a line is indented shows as soon as the line is not blank, so a text that is cut anywhere
keeps the indentation of the lines that the cut leaves something of.
-/

namespace Marginalia.Text

/-- How deep the lines that are not blank are indented. -/
def indentWidths (t : Text) : List Nat := (inkedLines t).map indentWidth

/-- No line that is not blank is indented less than the first such line. -/
def Steady (t : Text) : Prop :=
  ∀ base ∈ (indentWidths t).head?, ∀ width ∈ indentWidths t, base ≤ width

theorem exists_lines_append_row {row : Text} (hrow : '\n' ∉ row) (hne : row ≠ []) (t : Text) :
    ∃ more rest, lines (row ++ t) = (row ++ more) :: rest ∧
      lines (row ++ more) = [row ++ more] := by
  induction t using rows_induction with
  | row r hr =>
    have hline : '\n' ∉ row ++ r := by simp [hrow, hr]
    have hlines := lines_row hline (by simp [hne])
    exact ⟨r, [], hlines, hlines⟩
  | newline r t hr _ =>
    have hline : '\n' ∉ row ++ r := by simp [hrow, hr]
    refine ⟨r ++ ['\n'], lines t, ?_, ?_⟩
    · rw [← List.append_assoc, lines_newline hline, List.append_assoc]
    · rw [← List.append_assoc]
      exact lines_newline hline []

theorem indent_line {line : Text} (hline : lines line = [line]) (hink : isBlank line = false) :
    indent line = line.takeWhile isIndentChar := by
  have hfind : (rows line).find? (fun row => !isBlank row) = some (lineContent line) := by
    rw [rows, hline, List.map_singleton, List.find?_singleton, isBlank_lineContent, hink]
    rfl
  rw [indent, hfind]
  exact takeWhile_lineContent line

/-- What follows a character that is not blank indents nothing. -/
theorem takeWhile_isIndentChar_append {s : Text} (hs : isBlank s = false) (t : Text) :
    (s ++ t).takeWhile isIndentChar = s.takeWhile isIndentChar := by
  induction s with
  | nil => cases hs
  | cons c s ih =>
    rw [List.cons_append, List.takeWhile_cons, List.takeWhile_cons]
    split
    · rename_i hc
      have hblank : isBlank s = false := by
        rwa [isBlank, List.all_cons, isBlankChar_of_isIndentChar hc, Bool.true_and] at hs
      rw [ih hblank]
    · rfl

theorem indentWidths_newline {row : Text} (hrow : '\n' ∉ row) (t : Text) :
    indentWidths (row ++ '\n' :: t) = indentWidths (row ++ ['\n']) ++ indentWidths t := by
  have hline : lines (row ++ ['\n']) = [row ++ ['\n']] := lines_newline hrow []
  rw [indentWidths, inkedLines, lines_newline hrow, ← List.singleton_append, ← hline,
    List.filter_append, List.map_append]
  rfl

theorem indentWidths_prefix_append (s t : Text) : indentWidths s <+: indentWidths (s ++ t) := by
  induction s using rows_induction with
  | newline r s hr ih =>
    have happend : r ++ '\n' :: s ++ t = r ++ '\n' :: (s ++ t) := by simp
    rw [happend, indentWidths_newline hr s, indentWidths_newline hr (s ++ t)]
    exact (List.prefix_append_right_inj _).2 ih
  | row r hr =>
    cases hblank : isBlank r with
    | true =>
      rw [indentWidths, inkedLines_eq_nil hblank]
      exact List.nil_prefix
    | false =>
      have hne : r ≠ [] := by
        rintro rfl
        cases hblank
      obtain ⟨more, rest, hlines, hline⟩ := exists_lines_append_row hr hne t
      have hink : isBlank (r ++ more) = false := by rw [isBlank_append, hblank, Bool.false_and]
      have hwidth : indentWidth (r ++ more) = indentWidth r := by
        rw [indentWidth, indentWidth, indent_line hline hink,
          indent_line (lines_row hr hne) hblank, takeWhile_isIndentChar_append hblank]
      rw [indentWidths, indentWidths, inkedLines, inkedLines, hlines, lines_row hr hne]
      simp [hblank, hink, hwidth]

theorem Steady.of_append {s t : Text} (h : Steady (s ++ t)) : Steady s := by
  obtain ⟨more, hmore⟩ := indentWidths_prefix_append s t
  intro base hbase width hwidth
  apply h
  · rw [← hmore, List.head?_append, Option.mem_def.1 hbase, Option.some_or]
    rfl
  · rw [← hmore]
    exact List.mem_append_left _ hwidth

theorem Steady.upTo {t : Text} (h : Steady t) (pos : Nat) : Steady (upTo pos t) := by
  rw [← upTo_append_after pos t] at h
  exact h.of_append

end Marginalia.Text
