import Marginalia.Proofs.Scope.Titled
import Marginalia.Proofs.Section.Merging

/-! # Decorated declarations

A decorator may go on over further lines. It is cut off before the declaration behind it
(`Decorated.splitByIndent_eq`) and then merged with it again, so that both make up one section with
the label of the declaration (`Decorated.exists_merged`).
-/

namespace Marginalia

open Scope (labelOf)
open ScopeRule (firstIn matchRow)
open Text (bareLine isBlank lines located size)

namespace Scope

theorem pieces_cons {cut : Section → List Section} {s first : Section} {rest : List Section}
    (h : cut s = first :: rest) (fuel : Nat) :
    pieces cut (fuel + 1) s = first :: rest.flatMap (pieces cut fuel) := by
  rw [pieces, h]

theorem cutAtDedent_of_none {s : Section} (h : dedent? s.code = none) (rules : List ScopeRule) :
    cutAtDedent rules s = cutAtScope rules s := by
  rw [cutAtDedent, h]

section Cuts

variable {rules : List ScopeRule} {s : Section} {blanks passed later : List Text}
variable {first line own label : Text}

theorem firstIn_passed (pos : Nat) (h : ∀ line ∈ passed, labelOf rules line = none) :
    firstIn (matchRow rules) (located pos passed) = none := by
  induction passed generalizing pos with
  | nil => rfl
  | cons line passed ih =>
    rw [List.forall_mem_cons] at h
    rw [located, ScopeRule.firstIn_cons, labelOf_eq_none_iff.1 h.1, ih _ h.2]
    rfl

theorem Begins.busy (h : Begins s.code blanks first later) (hown : labelOf rules line = some own) :
    (rules.isEmpty || !s.hasCode) = false := by
  cases rules with
  | nil => cases hown
  | cons rule rules => simp [h.hasCode]

variable (hrules : ∀ rule ∈ rules, rule.LineLocal)

include hrules

/-- Where no line behind the first has a label, the section is not cut. -/
theorem Begins.cutAtScope_of_passed (h : Begins s.code blanks first later)
    (hown : labelOf rules first = some own) (hlater : ∀ line ∈ later, labelOf rules line = none) :
    cutAtScope rules s = [{ s with scope := some own }] := by
  rw [h.cutAtScope_eq hrules (h.busy hown), ← labelOf, hown, firstIn_passed _ hlater]
  rfl

/-- Otherwise it is cut before the first of them that has. -/
theorem Begins.cutAtScope_of_labelled (h : Begins s.code blanks first (passed ++ line :: later))
    (hown : labelOf rules first = some own) (hpassed : ∀ line ∈ passed, labelOf rules line = none)
    (hlabel : labelOf rules line = some label) :
    cutAtScope rules s =
      [{ s with code := (blanks ++ first :: passed).flatten, scope := some own },
        { code := (line :: later).flatten, level := s.level, scope := some label }] := by
  have hlines : lines s.code = (blanks ++ first :: passed) ++ line :: later := by
    simp [h.lines_eq]
  obtain ⟨m, hm, rfl⟩ := Option.map_eq_some_iff.1 hlabel
  have hline : line ∈ lines s.code := by simp [hlines]
  have hstart : m.start = 0 := by
    obtain ⟨_, _, hrow⟩ := Text.exists_bareLine hline
    exact (ScopeRule.bounds_of_matchRow hrules hrow hm).1
  rw [h.cutAtScope_eq hrules (h.busy hown), ← labelOf, hown, Text.located_append, firstIn,
    List.findSome?_append, ← firstIn, firstIn_passed _ hpassed, Option.none_or, ← firstIn, located,
    ScopeRule.firstIn_cons, hm]
  refine cutAt_of_lines (s := { s with scope := some own }) hlines ?_
  simp [ScopeMatch.moved, hstart, Nat.add_assoc]

theorem begins_of_labelOf (hlines : lines s.code = first :: later)
    (hown : labelOf rules first = some own) : Begins s.code [] first later := by
  refine ⟨hlines, List.forall_mem_nil _, ?_⟩
  rw [Bool.eq_false_iff]
  intro hblank
  have hmem : first ∈ lines s.code := by simp [hlines]
  rw [labelOf, matchRow_of_mem_lines hrules hmem hblank] at hown
  cases hown

end Cuts

/-- The lines of a decorator and then those of a declaration, with no other scope and no dedent. -/
structure Decorated (rules : List ScopeRule) (mark label : Text) (t first : Text)
    (args : List Text) (line : Text) (body : List Text) : Prop where
  lines_eq : lines t = first :: (args ++ line :: body)
  marked : labelOf rules first = some mark
  unlabelled_args : ∀ arg ∈ args, labelOf rules arg = none
  declared : labelOf rules line = some label
  unlabelled_body : ∀ inner ∈ body, labelOf rules inner = none
  level : dedent? t = none
  level_declaration : dedent? (line :: body).flatten = none

namespace Decorated

variable {rules : List ScopeRule} {mark label t first line : Text} {args body : List Text}
variable (h : Decorated rules mark label t first args line body)

include h

theorem parts :
    t = (first :: args).flatten ++ (line :: body).flatten ∧
      lines (first :: args).flatten = first :: args ∧
      lines (line :: body).flatten = line :: body :=
  Text.lines_parts h.lines_eq

variable (hrules : ∀ rule ∈ rules, rule.LineLocal)

include hrules

theorem hasCode_decorator {s : Section} (hs : s.code = (first :: args).flatten) :
    s.hasCode = true := by
  obtain ⟨_, hlines, _⟩ := h.parts
  exact (begins_of_labelOf hrules (hs ▸ hlines) h.marked).hasCode

theorem begins_declaration {s : Section} (hs : s.code = (line :: body).flatten) :
    Begins s.code [] line body := by
  obtain ⟨_, _, hlines⟩ := h.parts
  exact begins_of_labelOf hrules (hs ▸ hlines) h.declared

theorem splitByIndent_eq (level : Nat) :
    splitByIndent rules [{ code := t, level }] =
      [{ code := (first :: args).flatten, level, scope := some mark },
        { code := (line :: body).flatten, level, scope := some label }] := by
  have hfirst : cutAtDedent rules { code := t, level } =
      [{ code := (first :: args).flatten, level, scope := some mark },
        { code := (line :: body).flatten, level, scope := some label }] := by
    rw [cutAtDedent_of_none h.level]
    exact (begins_of_labelOf hrules h.lines_eq h.marked).cutAtScope_of_labelled hrules h.marked
      h.unlabelled_args h.declared
  have hsecond : cutAtDedent rules { code := (line :: body).flatten, level, scope := some label } =
      [{ code := (line :: body).flatten, level, scope := some label }] := by
    rw [cutAtDedent_of_none h.level_declaration]
    exact (h.begins_declaration hrules rfl).cutAtScope_of_passed hrules h.declared
      h.unlabelled_body
  have hne : t ≠ [] := by
    rintro rfl
    cases h.lines_eq
  obtain ⟨fuel, hfuel⟩ := Nat.exists_eq_add_one_of_ne_zero (mt List.length_eq_zero_iff.1 hne)
  rw [splitByIndent, splitAll, List.flatMap_singleton, pieces_cons hfirst, hfuel,
    List.flatMap_singleton, pieces_cons hsecond, List.flatMap_nil]

end Decorated

end Scope

/-! ## Passes on one section and on two -/

namespace Layout

variable {d s : Section}

theorem setLevels_singleton (hs : s.hasCode = true) :
    setLevels [s] = [{ s with level := Text.indentWidth s.code }] := by
  simp only [setLevels, levelsFrom, hs, if_true]

theorem setLevels_pair (hd : d.hasCode = true) (hs : s.hasCode = true) :
    setLevels [d, s] =
      [{ d with level := Text.indentWidth d.code }, { s with level := Text.indentWidth s.code }] := by
  simp only [setLevels, levelsFrom, hd, hs, if_true]

theorem mergeUp_pair (rules : List ScopeRule) (hs : s.hasCode = true) :
    mergeUp rules [d, s] = [d, s] :=
  (Section.foldAdjacent_pair_iff d s).2 (by simp [joinsUp, hs])

theorem mergeDown_pair (hd : d.hasCode = true) : mergeDown [d, s] = [d, s] :=
  (Section.foldAdjacent_pair_iff d s).2 (by simp [joinsDown, hd])

end Layout

theorem Decorator.attachAll_pair {marker mark : Text} {d s : Section} (hscope : d.scope = some mark)
    (hmark : Text.holds marker mark = true) : attachAll marker [d, s] = [attach d s] := by
  have hd : isDecorator marker d = true := by simp [isDecorator, hscope, hmark]
  rw [attachAll, Section.foldAdjacent, Section.foldFrom, if_pos hd, Section.foldFrom]

namespace Scope.Decorated

open Layout (absorb mergeDown mergeUp setLevels)

variable {rules : List ScopeRule} {marker mark label t first line : Text} {args body : List Text}

/-- The merging passes put the decorator and its declaration together. -/
theorem exists_merged (h : Decorated rules mark label t first args line body)
    (hrules : ∀ rule ∈ rules, rule.LineLocal) (hmark : Text.holds marker mark = true)
    (level : Nat) :
    ∃ level', absorb (Decorator.attachAll marker (setLevels (mergeDown (setLevels
        (mergeUp rules (splitByIndent rules [{ code := t, level }])))))) =
      [{ code := t, level := level', scope := some label }] := by
  have hcode := h.parts.1
  have hd {d : Section} (hd : d.code = (first :: args).flatten) : d.hasCode = true :=
    h.hasCode_decorator hrules hd
  have hs {s : Section} (hs : s.code = (line :: body).flatten) : s.hasCode = true :=
    (h.begins_declaration hrules hs).hasCode
  rw [h.splitByIndent_eq hrules, Layout.mergeUp_pair rules (hs rfl),
    Layout.setLevels_pair (hd rfl) (hs rfl), Layout.mergeDown_pair (hd rfl),
    Layout.setLevels_pair (hd rfl) (hs rfl), Decorator.attachAll_pair rfl hmark]
  refine ⟨Text.indentWidth (first :: args).flatten, ?_⟩
  rw [hcode]
  rfl

end Scope.Decorated

end Marginalia
