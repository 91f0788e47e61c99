import Marginalia.Pass
import Marginalia.Proofs.Text.Linewise
import Mathlib.Data.List.Forall2

/-! # Aligned documentation

Aligning takes the margin, the spaces and tabs of the first line that is not blank, off every line
that starts with it. That line still comes first afterwards, with nothing left in front of it, so
that a second alignment has nothing to take (`aligned_and_idempotent`).
-/

namespace Marginalia

open Text (afterHead? afterHead?_eq_some_iff firstInked isBlank isIndentChar margin)

namespace Text

theorem all_isIndentChar_margin (t : Text) : ∀ c ∈ margin t, isIndentChar c = true :=
  List.all_eq_true.1 List.all_takeWhile

theorem newline_not_mem_margin (t : Text) : '\n' ∉ margin t := fun h =>
  absurd (all_isIndentChar_margin t _ h) (by decide)

theorem isBlank_margin (t : Text) : isBlank (margin t) = true :=
  List.all_eq_true.2 fun c hc => isBlankChar_of_isIndentChar (all_isIndentChar_margin t c hc)

theorem firstInked_map {f : Text → Text} (hf : ∀ row, isBlank (f row) = isBlank row)
    (rows : List Text) : firstInked (rows.map f) = (firstInked rows).map f := by
  rw [firstInked, List.find?_map, firstInked]
  simp only [Function.comp_def, hf]

end Text

namespace Layout

/-- A line without `head`, or the whole line if it starts otherwise. -/
def unindent (head line : Text) : Text := (afterHead? head line).getD line

theorem unindent_append (head row : Text) : unindent head (head ++ row) = row := by
  rw [unindent, afterHead?_eq_some_iff.2 rfl, Option.getD_some]

theorem unindent_eq_self {head line : Text} (h : ¬ head <+: line) :
    unindent head line = line := by
  have hnone : afterHead? head line = none := by
    rw [Option.eq_none_iff_forall_ne_some]
    intro rest hrest
    exact h ⟨rest, (afterHead?_eq_some_iff.1 hrest).symm⟩
  rw [unindent, hnone, Option.getD_none]

/-- What becomes of one line. -/
def Unindents (head row row' : Text) : Prop :=
  row = head ++ row' ∨ ¬ head <+: row ∧ row' = row

theorem unindents_unindent (head row : Text) : Unindents head row (unindent head row) := by
  by_cases h : head <+: row
  · obtain ⟨rest, rfl⟩ := h
    exact .inl (by rw [unindent_append])
  · exact .inr ⟨h, unindent_eq_self h⟩

theorem isBlank_unindent {head : Text} (hhead : isBlank head = true) (row : Text) :
    isBlank (unindent head row) = isBlank row := by
  rcases unindents_unindent head row with h | ⟨_, h⟩
  · conv => rhs; rw [h, Text.isBlank_append, hhead, Bool.true_and]
  · rw [h]

theorem linewise_unindent {head : Text} (hhead : '\n' ∉ head) :
    Text.Linewise (unindent head) (unindent head) where
  row _ _ := rfl
  newline row hrow := by
    by_cases h : head <+: row
    · obtain ⟨rest, rfl⟩ := h
      rw [unindent_append, List.append_assoc, unindent_append]
    · have hconcat : ¬ head <+: row ++ ['\n'] := by
        intro hprefix
        rcases List.prefix_concat_iff.1 hprefix with heq | hprefix
        · exact hhead (heq ▸ by simp)
        · exact h hprefix
      rw [unindent_eq_self h, unindent_eq_self hconcat]
  not_mem row hrow := by
    rcases unindents_unindent head row with h | ⟨_, h⟩
    · intro hmem
      exact hrow (h ▸ List.mem_append_right _ hmem)
    · rwa [h]
  nil := by
    cases head <;> rfl

theorem alignText_eq (docs : Text) :
    alignText docs = (Text.lines docs).flatMap (unindent (margin docs)) := by
  rw [alignText, Text.indent_eq_margin, List.flatMap_def]
  rfl

theorem splitOn_alignText (docs : Text) :
    (alignText docs).splitOn '\n' = (docs.splitOn '\n').map (unindent (margin docs)) := by
  rw [alignText_eq,
    Text.splitOn_flatMap_lines (linewise_unindent (Text.newline_not_mem_margin docs))]

theorem firstInked_alignText (docs : Text) :
    firstInked ((alignText docs).splitOn '\n') =
      (firstInked (docs.splitOn '\n')).map (unindent (margin docs)) := by
  rw [splitOn_alignText, Text.firstInked_map (isBlank_unindent (Text.isBlank_margin docs))]

/-- The line that the margin is taken from starts flush once it is taken off. -/
theorem flush_alignText (docs : Text) :
    ∀ row ∈ firstInked ((alignText docs).splitOn '\n'),
      ∀ c ∈ row.head?, isIndentChar c = false := by
  intro row hrow c hc
  rw [firstInked_alignText, Option.mem_def, Option.map_eq_some_iff] at hrow
  obtain ⟨first, hfirst, rfl⟩ := hrow
  have hmargin : margin docs = first.takeWhile isIndentChar := by
    rw [margin, hfirst, Option.getD_some]
  have hrest : unindent (margin docs) first = first.dropWhile isIndentChar := by
    have hsplit := unindent_append (margin docs) (first.dropWhile isIndentChar)
    rwa [hmargin, List.takeWhile_append_dropWhile, ← hmargin] at hsplit
  rw [hrest] at hc
  have hnot := List.head?_dropWhile_not isIndentChar first
  rw [Option.mem_def.1 hc] at hnot
  simpa using hnot

theorem margin_alignText (docs : Text) : margin (alignText docs) = [] := by
  have hflush := flush_alignText docs
  rw [margin]
  cases hfirst : firstInked ((alignText docs).splitOn '\n') with
  | none => rfl
  | some row =>
    cases row with
    | nil => rfl
    | cons c row =>
      have hc : isIndentChar c = false := hflush (c :: row) hfirst c rfl
      rw [Option.getD_some, List.takeWhile_cons_of_neg (by simp [hc])]

theorem alignText_alignText (docs : Text) : alignText (alignText docs) = alignText docs := by
  have hall : (Text.lines (alignText docs)).map (unindent []) = Text.lines (alignText docs) :=
    List.map_id _
  rw [alignText_eq, margin_alignText, List.flatMap_def, hall, Text.flatten_lines]

/-- Documentation before and after it is aligned, line by line. -/
structure Aligned (docs docs' : Text) : Prop where
  rows : List.Forall₂ (Unindents (margin docs)) (docs.splitOn '\n') (docs'.splitOn '\n')
  length_eq : (docs'.splitOn '\n').length = (docs.splitOn '\n').length
  blank : List.Forall₂ (fun row row' => isBlank row' = isBlank row)
    (docs.splitOn '\n') (docs'.splitOn '\n')
  flush : ∀ row ∈ firstInked (docs'.splitOn '\n'), ∀ c ∈ row.head?, isIndentChar c = false

theorem aligned_alignText (docs : Text) : Aligned docs (alignText docs) where
  rows := by
    rw [splitOn_alignText, List.forall₂_map_right_iff, List.forall₂_same]
    exact fun row _ => unindents_unindent _ row
  length_eq := by rw [splitOn_alignText, List.length_map]
  blank := by
    rw [splitOn_alignText, List.forall₂_map_right_iff, List.forall₂_same]
    exact fun row _ => isBlank_unindent (Text.isBlank_margin docs) row
  flush := flush_alignText docs

/-- Aligning changes nothing but documentation, takes the margin off the lines that start with it,
and is done after one run. -/
theorem aligned_and_idempotent (g : Grammar) (sections : List Section) :
    List.Forall₂ (fun s s' => s' = { s with docs := s'.docs } ∧ Aligned s.docs s'.docs)
        sections (Pass.alignDocs.run g sections) ∧
      Pass.alignDocs.run g (Pass.alignDocs.run g sections) = Pass.alignDocs.run g sections := by
  change List.Forall₂ _ sections (alignDocs sections) ∧
    alignDocs (alignDocs sections) = alignDocs sections
  constructor
  · rw [alignDocs, List.forall₂_map_right_iff, List.forall₂_same]
    exact fun s _ => ⟨rfl, aligned_alignText s.docs⟩
  · rw [alignDocs, alignDocs, List.map_map]
    refine List.map_congr_left fun s _ => ?_
    rw [Function.comp_apply, alignText_alignText]

end Layout

end Marginalia
