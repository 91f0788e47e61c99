import Marginalia.Proofs.Render.Plain
import Marginalia.Render.Page

/-! # Highlighting sections plainly

With a delimiter whose dividers the plain highlighter marks, highlighting succeeds exactly if no
code holds a divider of its own; each fragment is then the highlighted code of its section.
-/

namespace Marginalia

open Text (Newlines)
open Highlighter (plainHighlight)

namespace Divider

variable {delimiter : Text}

theorem isDividerLine_iff :
    isDividerLine (delimiter ++ word) = true ↔ delimiter ≠ [] ∧ Text.size delimiter ≤ 3 ∧
      ∀ c ∈ delimiter, Text.isAlphanumeric c = false ∧ Text.isBlankChar c = false := by
  rw [isDividerLine, Text.beforeTail?_eq_some_iff.2 rfl]
  simp [and_assoc]

theorem not_mem_of_isDividerLine (h : isDividerLine (delimiter ++ word) = true) :
    '\n' ∉ delimiter ++ word := by
  rw [List.mem_append, not_or]
  refine ⟨fun hmem => ?_, by decide⟩
  exact absurd ((isDividerLine_iff.1 h).2.2 _ hmem).2 (by decide)

theorem isMarked_divider (h : isDividerLine (delimiter ++ word) = true) :
    isMarked delimiter (delimiter ++ word) = true := by
  rw [isMarked, h, beq_self_eq_true, Bool.and_self]

theorem countMarks_append (delimiter : Text) (xs ys : List Text) :
    countMarks delimiter (xs ++ ys) = countMarks delimiter xs + countMarks delimiter ys :=
  List.countP_append

theorem countMarks_eq_zero (h : isDividerLine (delimiter ++ word) = false) (ls : List Text) :
    countMarks delimiter ls = 0 := by
  rw [countMarks, List.countP_eq_zero]
  intro line _ hmarked
  rw [isMarked, Bool.and_eq_true, beq_iff_eq] at hmarked
  rw [hmarked.2, h] at hmarked
  cases hmarked.1

theorem plainHighlight_text (h : isDividerLine (delimiter ++ word) = true) (s t : Text) :
    plainHighlight (s ++ text delimiter ++ t) =
      plainHighlight s ++ (['\n'] ++ (mark delimiter ++ (['\n'] ++ plainHighlight t))) := by
  have htext : text delimiter ++ t = '\n' :: ((delimiter ++ word) ++ '\n' :: t) := by
    rw [List.append_cons (delimiter ++ word)]
    rfl
  rw [List.append_assoc, htext, Highlighter.plainHighlight_newline,
    Highlighter.plainHighlight_row_newline (not_mem_of_isDividerLine h),
    plainRow_of_isMarked (isMarked_divider h)]
  rfl

/-- The joined and highlighted code falls into as many texts as there are codes and own dividers. -/
theorem exists_marked_join (h : isDividerLine (delimiter ++ word) = true) (c : Text)
    (cs : List Text) :
    ∃ x xs, Marked delimiter (plainHighlight (Text.join (text delimiter) (c :: cs))) (x :: xs) ∧
      xs.length = cs.length + countMarks delimiter ((c :: cs).flatMap Text.lines) ∧
      (countMarks delimiter ((c :: cs).flatMap Text.lines) = 0 →
        x :: xs = (c :: cs).map plainHighlight) := by
  induction cs generalizing c with
  | nil =>
    obtain ⟨x, xs, hmarked, hlength⟩ := exists_marked delimiter c
    refine ⟨x, xs, hmarked, by simpa using hlength, fun hzero => ?_⟩
    obtain rfl : xs = [] := List.length_eq_zero_iff.1 (hlength.trans (by simpa using hzero))
    rw [hmarked.eq_of_singleton]
    rfl
  | cons c' cs ih =>
    obtain ⟨x, xs, hmarked, hlength⟩ := exists_marked delimiter c
    obtain ⟨y, ys, hjoined, hrest, hwhole⟩ := ih c'
    rw [Text.join, plainHighlight_text h]
    refine ⟨x, xs ++ y :: ys, ?_, ?_, fun hzero => ?_⟩
    · exact hmarked.append Text.newlines_singleton Text.newlines_singleton hjoined
    · rw [List.flatMap_cons, countMarks_append, List.length_append, List.length_cons,
        List.length_cons]
      omega
    · rw [List.flatMap_cons, countMarks_append, Nat.add_eq_zero_iff] at hzero
      obtain rfl : xs = [] := List.length_eq_zero_iff.1 (hlength.trans hzero.1)
      rw [hmarked.eq_of_singleton, hwhole hzero.2]
      rfl

end Divider

namespace Render

open Divider (isDividerLine word countMarks fragmentsFrom)

variable {l : Language} {delimiter : Text}

def ownDividers (delimiter : Text) (sections : List Section) : Nat :=
  countMarks delimiter (sections.flatMap fun s => Text.lines s.code)

theorem highlightSections_marked (hl : l.inlineDelimiter? = some delimiter)
    (h : isDividerLine (delimiter ++ word) = true) (s : Section) (rest : List Section) :
    highlightSections l (s :: rest) .plain =
      if ownDividers delimiter (s :: rest) = 0 then
        .ok (fragmentsFrom (plainHighlight s.code) (rest.map fun t => plainHighlight t.code))
      else
        .error (.dividerMismatch l.name (s :: rest).length
          ((s :: rest).length + ownDividers delimiter (s :: rest))) := by
  obtain ⟨x, xs, hmarked, hlength, hwhole⟩ :=
    Divider.exists_marked_join h s.code (rest.map (·.code))
  have hcount : countMarks delimiter ((s.code :: rest.map (·.code)).flatMap Text.lines) =
      ownDividers delimiter (s :: rest) := by
    rw [ownDividers, ← List.map_cons, List.flatMap_map]
  have hsplit : (Divider.regex delimiter).split
      (Highlighter.plain.highlight (Text.join (Divider.text delimiter)
        ((s :: rest).map (·.code))) l.name) = fragmentsFrom x xs := Divider.split_of_marked hmarked
  rw [hcount] at hlength hwhole
  rw [List.length_map] at hlength
  simp only [highlightSections, hl, hsplit, List.isEmpty_cons, Bool.false_eq_true, if_false,
    Divider.length_fragmentsFrom, hlength, List.length_cons]
  by_cases hzero : ownDividers delimiter (s :: rest) = 0
  · have hall := hwhole hzero
    rw [List.map_cons, List.cons.injEq, List.map_map] at hall
    rw [if_pos hzero, if_pos (by omega), hall.1, hall.2]
    rfl
  · rw [if_neg hzero, if_neg (by omega)]
    congr 2
    omega

theorem highlightSections_unmarked (hl : l.inlineDelimiter? = some delimiter)
    (h : isDividerLine (delimiter ++ word) = false) (s : Section) (rest : List Section) :
    highlightSections l (s :: rest) .plain =
      if rest = [] then .ok [plainHighlight s.code]
      else .error (.dividerMismatch l.name (s :: rest).length 1) := by
  obtain ⟨x, xs, hmarked, hlength⟩ :=
    Divider.exists_marked delimiter (Text.join (Divider.text delimiter) ((s :: rest).map (·.code)))
  rw [Divider.countMarks_eq_zero h, List.length_eq_zero_iff] at hlength
  subst hlength
  have hsplit : (Divider.regex delimiter).split
      (Highlighter.plain.highlight (Text.join (Divider.text delimiter)
        ((s :: rest).map (·.code))) l.name) = [x] := Divider.split_of_marked hmarked
  simp only [highlightSections, hl, hsplit, List.isEmpty_cons, Bool.false_eq_true, if_false,
    List.length_cons, List.length_nil]
  cases rest with
  | nil =>
    rw [if_pos rfl, hmarked.eq_of_singleton]
    rfl
  | cons t rest =>
    rw [if_neg (by simp), if_neg (by simp)]

end Render

end Marginalia
