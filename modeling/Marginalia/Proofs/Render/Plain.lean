import Marginalia.Proofs.Render.Fragments
import Marginalia.Proofs.Text.Lines
import Marginalia.Proofs.Text.Markup
import Marginalia.Render.Highlighter

/-! # The plain highlighter

Row by row, the plain highlighter escapes a text and marks what looks like a divider. A row that is
the divider of a language becomes a mark of it; nothing else does.
-/

namespace Marginalia

open Text (Newlines EndsLine escapeMarkup lines dropNewlines dropEndNewlines)

namespace Highlighter

def openTag : Text := "<span class=\"c1\">"

def closeTag : Text := "</span>"

def plainRow (row : Text) : Text :=
  if Divider.isDividerLine row then openTag ++ (escapeMarkup row ++ closeTag)
  else escapeMarkup row

theorem plainRow_append (row ending : Text) :
    plainRow row ++ ending =
      if Divider.isDividerLine row then openTag ++ escapeMarkup row ++ closeTag ++ ending
      else escapeMarkup row ++ ending := by
  rw [plainRow]
  by_cases h : Divider.isDividerLine row = true
  · rw [if_pos h, if_pos h]
    simp only [List.append_assoc]
  · rw [if_neg h, if_neg h]

theorem plainLine_newline (row : Text) : plainLine (row ++ ['\n']) = plainRow row ++ ['\n'] := by
  rw [plainLine, Text.beforeTail?_newline]
  exact (plainRow_append row ['\n']).symm

theorem plainLine_row {row : Text} (h : '\n' ∉ row) : plainLine row = plainRow row := by
  rw [plainLine, Text.beforeTail?_row h, ← List.append_nil (plainRow row)]
  exact (plainRow_append row []).symm

theorem plainHighlight_row {row : Text} (h : '\n' ∉ row) : plainHighlight row = plainRow row := by
  by_cases hne : row = []
  · subst hne
    rfl
  · rw [plainHighlight, Text.lines_row h hne, List.map_singleton, List.flatten_singleton,
      plainLine_row h]

theorem plainHighlight_row_newline {row : Text} (h : '\n' ∉ row) (t : Text) :
    plainHighlight (row ++ '\n' :: t) = plainRow row ++ '\n' :: plainHighlight t := by
  rw [plainHighlight, Text.lines_newline h, List.map_cons, List.flatten_cons, plainLine_newline,
    List.append_assoc]
  rfl

theorem plainHighlight_newline (s t : Text) :
    plainHighlight (s ++ '\n' :: t) = plainHighlight s ++ '\n' :: plainHighlight t := by
  induction s using Text.rows_induction with
  | row r hr => rw [plainHighlight_row_newline hr, plainHighlight_row hr]
  | newline r u hr ih =>
    rw [List.append_assoc, List.cons_append, plainHighlight_row_newline hr, ih,
      plainHighlight_row_newline hr, List.append_assoc, List.cons_append]

end Highlighter

namespace Divider

open Highlighter (openTag closeTag plainRow plainHighlight)

variable {delimiter : Text}

theorem openTag_eq : openTag = opening ++ ['1', '"', '>'] := rfl

theorem comment_eq (delimiter : Text) : comment delimiter = escapeMarkup (delimiter ++ word) := by
  rw [Text.escapeMarkup_append]
  rfl

theorem mark_eq (delimiter : Text) :
    mark delimiter = openTag ++ (comment delimiter ++ closeTag) := by
  rw [openTag_eq, mark, ending, List.append_assoc, List.append_assoc]
  rfl

theorem clean_closeTag {x : Text} (hx : Clean delimiter x) : Clean delimiter (closeTag ++ x) := by
  have htail : Clean delimiter ("/span>".toList ++ x) := hx.append (by decide)
  refine .of_tail htail fun w hmarks => ?_
  rcases hmarks with ⟨u, hu⟩ | ⟨u, hu⟩
  · exact absurd (List.head_eq_of_cons_eq (List.tail_eq_of_cons_eq hu)) (by decide)
  · exact absurd (List.head_eq_of_cons_eq (List.tail_eq_of_cons_eq hu)) (by decide)

theorem clean_tagged {row x : Text} (hrow : row ≠ delimiter ++ word) (hx : Clean delimiter x) :
    Clean delimiter (openTag ++ (escapeMarkup row ++ closeTag) ++ x) := by
  have hlt := (Text.not_mem_escapeMarkup row).1
  have hbody : Clean delimiter (escapeMarkup row ++ (closeTag ++ x)) :=
    (clean_closeTag hx).append hlt
  have htail : Clean delimiter
      ("span class=\"c1\">".toList ++ (escapeMarkup row ++ (closeTag ++ x))) :=
    hbody.append (by decide)
  rw [List.append_assoc, List.append_assoc]
  refine .of_tail htail fun w hmarks => ?_
  have hhead : (openTag ++ (escapeMarkup row ++ (closeTag ++ (x ++ w)))).head? ≠ some '\n' := by
    change some '<' ≠ some '\n'
    decide
  rw [List.append_assoc, List.append_assoc, List.append_assoc, Marks,
    Text.dropNewlines_of_head hhead] at hmarks
  rcases hmarks with ⟨u, hu⟩ | ⟨u, hu⟩
  · rw [mark_eq, List.append_assoc, List.append_assoc] at hu
    have hcomment := (Text.append_inj_of_not_mem (Text.not_mem_escapeMarkup _).1 hlt
      (comment_eq delimiter ▸ List.append_cancel_left hu)).1
    exact absurd (Text.escapeMarkup_injective hcomment).symm hrow
  · rw [shortMark, openTag_eq, List.append_assoc, List.append_assoc] at hu
    exact absurd (List.head_eq_of_cons_eq (List.append_cancel_left hu)) (by decide)

/-- Whether a row is a divider with the delimiter that the highlighter marks. -/
def isMarked (delimiter row : Text) : Bool := isDividerLine row && row == delimiter ++ word

/-- The number of lines that the highlighter turns into marks. -/
def countMarks (delimiter : Text) (ls : List Text) : Nat :=
  ls.countP fun line => isMarked delimiter (Text.bareLine line)

theorem plainRow_of_isMarked {row : Text} (h : isMarked delimiter row = true) :
    plainRow row = mark delimiter := by
  rw [isMarked, Bool.and_eq_true, beq_iff_eq] at h
  rw [plainRow, if_pos h.1, h.2, ← comment_eq, mark_eq]

theorem clean_plainRow {row x : Text} (h : isMarked delimiter row = false)
    (hx : Clean delimiter x) : Clean delimiter (plainRow row ++ x) := by
  rw [plainRow]
  by_cases hdivider : isDividerLine row = true
  · rw [if_pos hdivider]
    rw [isMarked, hdivider, Bool.true_and, beq_eq_false_iff_ne] at h
    exact clean_tagged h hx
  · rw [if_neg hdivider]
    exact hx.append (Text.not_mem_escapeMarkup row).1

theorem countMarks_row {row : Text} (h : '\n' ∉ row) :
    countMarks delimiter (lines row) = if isMarked delimiter row then 1 else 0 := by
  by_cases hne : row = []
  · subst hne
    rfl
  · rw [Text.lines_row h hne, countMarks, List.countP_singleton, Text.bareLine_row h]

theorem countMarks_row_newline {row : Text} (h : '\n' ∉ row) (t : Text) :
    countMarks delimiter (lines (row ++ '\n' :: t)) =
      countMarks delimiter (lines t) + if isMarked delimiter row then 1 else 0 := by
  rw [Text.lines_newline h, countMarks, List.countP_cons, Text.bareLine_newline]
  rfl

/-- The highlighted code is marked where rows are marked dividers. -/
theorem exists_marked (delimiter code : Text) :
    ∃ x xs, Marked delimiter (plainHighlight code) (x :: xs) ∧
      xs.length = countMarks delimiter (lines code) := by
  induction code using Text.rows_induction with
  | row r hr =>
    rw [Highlighter.plainHighlight_row hr, countMarks_row hr]
    by_cases hmarked : isMarked delimiter r = true
    · rw [plainRow_of_isMarked hmarked, if_pos hmarked]
      have hmark : Marked delimiter (mark delimiter ++ []) [[], []] :=
        .next (a := []) (b := []) clean_nil Text.newlines_nil Text.newlines_nil (.last clean_nil)
      rw [List.append_nil] at hmark
      exact ⟨[], [[]], hmark, rfl⟩
    · rw [if_neg hmarked]
      have hclean : Clean delimiter (plainRow r ++ []) :=
        clean_plainRow (Bool.not_eq_true _ ▸ hmarked) clean_nil
      rw [List.append_nil] at hclean
      exact ⟨_, [], .last hclean, rfl⟩
  | newline r t hr ih =>
    obtain ⟨x, xs, hmarked, hlength⟩ := ih
    rw [Highlighter.plainHighlight_row_newline hr, countMarks_row_newline hr]
    by_cases hrow : isMarked delimiter r = true
    · rw [plainRow_of_isMarked hrow, if_pos hrow]
      refine ⟨[], x :: xs, ?_, by rw [List.length_cons, hlength]⟩
      exact .next (a := []) (b := ['\n']) clean_nil Text.newlines_nil Text.newlines_singleton
        hmarked
    · rw [if_neg hrow, List.append_cons]
      refine ⟨_, xs, hmarked.prepend fun y hy => ?_, hlength⟩
      rw [List.append_assoc]
      exact clean_plainRow (Bool.not_eq_true _ ▸ hrow) (hy.append (by decide))

end Divider

end Marginalia
