import Marginalia.Proofs.Render.Shown

/-! # One call for all sections

Highlighting all code in one call, with dividers between the sections, comes to highlighting it
section by section, apart from newlines next to a divider. It fails exactly if the code has dividers
of its own, and each of them counts as one fragment more (`highlightSections_plain`).
-/

namespace Marginalia

open Text (dropNewlines dropEndNewlines lines)
open Highlighter (plainHighlight)

namespace Divider

variable {delimiter : Text}

theorem countMarks_lines (h : isDividerLine (delimiter ++ word) = true) (t : Text) :
    countMarks delimiter (lines t) = (t.splitOn '\n').count (delimiter ++ word) := by
  have hrow (r : Text) : isMarked delimiter r = (r == delimiter ++ word) := by
    rw [isMarked]
    cases hr : r == delimiter ++ word with
    | true => rw [eq_of_beq hr, h, Bool.and_self]
    | false => rw [Bool.and_false]
  induction t using Text.rows_induction with
  | row r hr => rw [countMarks_row hr, List.splitOn_eq_singleton hr, List.count_singleton, hrow]
  | newline r t hr ih =>
    rw [countMarks_row_newline hr, ih, List.splitOn_append_cons_self_of_not_mem hr,
      List.count_cons, hrow]

/-- The `i`th of `n` texts without the newlines next to a divider: there is one before each text but
the first and one after each but the last. -/
def trimmed (n i : Nat) (t : Text) : Text :=
  let t := if i = 0 then t else dropNewlines t
  if i + 1 = n then t else dropEndNewlines t

theorem trimmed_succ (n i : Nat) : trimmed (n + 1) (i + 1 + 1) = trimmed n (i + 1) := by
  funext t
  simp [trimmed]

theorem fragmentsFrom_eq (x : Text) (xs : List Text) :
    fragmentsFrom x xs = (x :: xs).mapIdx (trimmed (xs.length + 1)) := by
  -- Every text but the first comes with its leading newlines dropped already.
  suffices hrest : ∀ y ys, fragmentsFrom (dropNewlines y) ys =
      (y :: ys).mapIdx fun i => trimmed (ys.length + 2) (i + 1) by
    cases xs with
    | nil => rfl
    | cons y ys =>
      rw [fragmentsFrom, List.mapIdx_cons, hrest, List.length_cons]
      simp [trimmed]
  intro y ys
  induction ys generalizing y with
  | nil => simp [fragmentsFrom, trimmed]
  | cons z zs ih =>
    simp only [fragmentsFrom, List.mapIdx_cons, ih, List.length_cons, trimmed_succ]
    simp [trimmed]

end Divider

namespace Render

open Divider (isDividerLine word trimmed)

variable {l : Language} {delimiter : Text} {sections : List Section}

/-- How many lines of the code, between newlines, are the divider of a delimiter. -/
def dividerLines (delimiter : Text) (sections : List Section) : Nat :=
  (sections.flatMap fun s => s.code.splitOn '\n').count (delimiter ++ word)

theorem ownDividers_eq (h : isDividerLine (delimiter ++ word) = true) (sections : List Section) :
    ownDividers delimiter sections = dividerLines delimiter sections := by
  rw [ownDividers, dividerLines]
  induction sections with
  | nil => rfl
  | cons s rest ih =>
    rw [List.flatMap_cons, List.flatMap_cons, Divider.countMarks_append, List.count_append,
      Divider.countMarks_lines h, ih]

theorem trimmed_plainHighlight (n i : Nat) (t : Text) :
    trimmed n i (plainHighlight t) = plainHighlight (trimmed n i t) := by
  rw [trimmed, trimmed, Highlighter.dropNewlines_plainHighlight, ← apply_ite plainHighlight,
    Highlighter.dropEndNewlines_plainHighlight, ← apply_ite plainHighlight]

/-- With a delimiter whose dividers the highlighter marks, all sections are highlighted in one call
as each is by itself, unless there are dividers in their code. -/
theorem highlightSections_plain (hl : l.inlineDelimiter? = some delimiter)
    (hsize : 1 ≤ Text.size delimiter ∧ Text.size delimiter ≤ 3)
    (hchars : ∀ c ∈ delimiter, Text.isAlphanumeric c = false ∧ Text.isBlankChar c = false)
    (hne : sections ≠ []) :
    highlightSections l sections .plain =
      if dividerLines delimiter sections = 0 then
        .ok (sections.mapIdx fun i s =>
          Highlighter.plain.highlight (trimmed sections.length i s.code) l.name)
      else
        .error (.dividerMismatch l.name sections.length
          (sections.length + dividerLines delimiter sections)) := by
  have hdivider : isDividerLine (delimiter ++ word) = true := by
    apply Divider.isDividerLine_iff.2
    refine ⟨?_, hsize.2, hchars⟩
    rintro rfl
    exact absurd hsize.1 (by decide)
  obtain ⟨s, rest, rfl⟩ := List.exists_cons_of_ne_nil hne
  have hfragments : Divider.fragmentsFrom (plainHighlight s.code)
        (rest.map fun t => plainHighlight t.code) =
      (s :: rest).mapIdx fun i t => plainHighlight (trimmed (s :: rest).length i t.code) := by
    calc
      _ = ((s :: rest).map fun t => plainHighlight t.code).mapIdx
            (trimmed (s :: rest).length) := by
        rw [Divider.fragmentsFrom_eq, List.length_map]
        rfl
      _ = _ := by
        apply List.ext_getElem?
        intro i
        simp only [List.getElem?_mapIdx, List.getElem?_map, Option.map_map, Function.comp_def,
          trimmed_plainHighlight]
  rw [highlightSections_marked hl hdivider, ownDividers_eq hdivider, hfragments]
  rfl

def slashes : Language := { name := "Slashes", grammar := { inline := some { delimiter := "//" } } }

theorem highlightSections_plain_slashes :
    slashes.inlineDelimiter? = some "//".toList ∧
      (1 ≤ Text.size "//" ∧ Text.size "//" ≤ 3) ∧
      (∀ c ∈ "//".toList, Text.isAlphanumeric c = false ∧ Text.isBlankChar c = false) ∧
      [Section.ofCode "a\n", Section.ofCode "\n<b\n"] ≠ [] ∧
      highlightSections slashes [.ofCode "a\n", .ofCode "\n<b\n"] .plain =
        .ok ["a".toList, "&lt;b\n".toList] := by
  have hl : slashes.inlineDelimiter? = some "//".toList := rfl
  have hsize : 1 ≤ Text.size "//" ∧ Text.size "//" ≤ 3 := by decide
  have hslash : Text.isAlphanumeric '/' = false ∧ Text.isBlankChar '/' = false := ⟨rfl, rfl⟩
  have hchars : ∀ c ∈ "//".toList, Text.isAlphanumeric c = false ∧ Text.isBlankChar c = false :=
    List.forall_mem_cons.2 ⟨hslash, List.forall_mem_cons.2 ⟨hslash, nofun⟩⟩
  have hne : [Section.ofCode "a\n", Section.ofCode "\n<b\n"] ≠ [] := List.cons_ne_nil _ _
  refine ⟨hl, hsize, hchars, hne, ?_⟩
  rw [highlightSections_plain hl hsize hchars hne, if_pos (by decide)]
  rfl

end Render

end Marginalia
