import Marginalia.Proofs.Scope.Cuts
import Marginalia.Proofs.Text.Indent
import Mathlib.Data.List.Forall2
import Mathlib.Logic.Function.Iterate

/-! # Sections and the groups they are split into

Splitting works off a queue of sections (`Worklist`). Parts are shorter than what they are cut from,
so the queue runs empty, and then every section has been replaced by a group of pieces that hold its
code (`Splits`). Pieces that were split by indentation go on as deep as they start.
-/

namespace Marginalia

/-- What a section says about its code. -/
def Section.notes (s : Section) : Text × Bool × Table Text := (s.docs, s.stripped, s.annotations)

namespace Scope

open Text (Steady indentWidth isBlank lines size)
open Section (codeOf)

/-! ## Groups -/

/-- The first part has the notes of the section, and the others have none. -/
def Led (s : Section) (parts : List Section) : Prop :=
  ∃ first rest, parts = first :: rest ∧ first.notes = s.notes ∧ ∀ p ∈ rest, p.notes = ([], false, ∅)

theorem led_cutAt (s : Section) (next? : Option ScopeMatch) : Led s (cutAt s next?) := by
  cases next? with
  | none => exact ⟨s, [], rfl, rfl, nofun⟩
  | some next =>
    refine ⟨_, _, rfl, rfl, ?_⟩
    intro p hp
    obtain rfl := List.mem_singleton.1 hp
    rfl

theorem led_cutAtScope (rules : List ScopeRule) (s : Section) : Led s (cutAtScope rules s) := by
  obtain ⟨scope, next?, hcut, _⟩ := exists_cutAtScope rules s
  rw [hcut]
  exact led_cutAt { s with scope } next?

theorem led_cutAtDedent (rules : List ScopeRule) (s : Section) : Led s (cutAtDedent rules s) := by
  rw [cutAtDedent]
  cases dedent? s.code with
  | none => exact led_cutAtScope rules s
  | some pos =>
    obtain ⟨first, rest, hparts, hfirst, hrest⟩ := led_cutAtScope rules (s.splitAt pos).1
    dsimp only
    rw [hparts, List.cons_append]
    refine ⟨first, _, rfl, hfirst, ?_⟩
    intro p hp
    rcases List.mem_append.1 hp with hp | hp
    · exact hrest p hp
    · obtain rfl := List.mem_singleton.1 hp
      rfl

theorem led_pieces {cut : Section → List Section} (hcut : ∀ s, Led s (cut s)) (fuel : Nat)
    (s : Section) : Led s (pieces cut fuel s) := by
  induction fuel generalizing s with
  | zero => exact ⟨s, [], rfl, rfl, nofun⟩
  | succ fuel ih =>
    obtain ⟨first, rest, hparts, hfirst, hrest⟩ := hcut s
    refine ⟨first, rest.flatMap (pieces cut fuel), by rw [pieces, hparts], hfirst, ?_⟩
    intro p hp
    obtain ⟨part, hpart, hp⟩ := List.mem_flatMap.1 hp
    obtain ⟨lead, others, hpieces, hlead, hothers⟩ := ih part
    rw [hpieces] at hp
    rcases List.mem_cons.1 hp with rfl | hp
    · rw [hlead, hrest part hpart]
    · exact hothers p hp

/-! ## The queue -/

/-- The sections that are still to be cut, and the pieces that are final. -/
structure Worklist where
  queue : List Section
  done : List Section

namespace Worklist

/-- Cuts the section in front. Its first part is final, and the others come first in the queue. -/
def step (cut : Section → List Section) : Worklist → Worklist
  | ⟨[], done⟩ => ⟨[], done⟩
  | ⟨s :: queue, done⟩ => ⟨(cut s).tail ++ queue, done ++ (cut s).head?.toList⟩

variable {cut : Section → List Section} {f : Section → List Section}

theorem iterate_step_flatMap {sections : List Section}
    (h : ∀ s ∈ sections, ∀ queue done,
      (step cut)^[(f s).length] ⟨s :: queue, done⟩ = ⟨queue, done ++ f s⟩)
    (queue done : List Section) :
    (step cut)^[(sections.flatMap f).length] ⟨sections ++ queue, done⟩ =
      ⟨queue, done ++ sections.flatMap f⟩ := by
  induction sections generalizing done with
  | nil => simp
  | cons s sections ih =>
    rw [List.forall_mem_cons] at h
    rw [List.flatMap_cons, List.length_append, Nat.add_comm, Function.iterate_add_apply,
      List.cons_append, h.1, ih h.2, List.append_assoc]

/-- Each step makes one piece final, so it takes as many steps as there are pieces. -/
theorem iterate_step_pieces (hshrinks : ∀ s, Shrinks s (cut s)) (hled : ∀ s, Led s (cut s))
    {fuel : Nat} {s : Section} (hfuel : s.code.length < fuel) (queue done : List Section) :
    (step cut)^[(pieces cut fuel s).length] ⟨s :: queue, done⟩ =
      ⟨queue, done ++ pieces cut fuel s⟩ := by
  induction fuel generalizing s queue done with
  | zero => exact absurd hfuel (Nat.not_lt_zero _)
  | succ fuel ih =>
    obtain ⟨first, rest, hparts, _⟩ := hled s
    have hstep : step cut ⟨s :: queue, done⟩ = ⟨rest ++ queue, done ++ [first]⟩ := by
      rw [step, hparts]
      rfl
    have hpieces : pieces cut (fuel + 1) s = first :: rest.flatMap (pieces cut fuel) := by
      rw [pieces, hparts]
    have hrest : ∀ p ∈ rest, p.code.length < fuel := by
      intro p hp
      have hlt := (hshrinks s).length_lt (p := p) (by rw [hparts]; exact hp)
      omega
    rw [hpieces, List.length_cons, Function.iterate_succ_apply, hstep,
      iterate_step_flatMap fun p hp queue done => ih (hrest p hp) queue done, List.append_assoc]
    rfl

end Worklist

/-- Working off the sections with a cut ends in the output, and the output has, in order, one group
of pieces for each section. -/
structure Splits (cut : Section → List Section) (sections output : List Section) : Prop where
  ends : (Worklist.step cut)^[output.length] ⟨sections, []⟩ = ⟨[], output⟩
  groups : ∃ groups : List (List Section), output = groups.flatten ∧
    sections.Forall₂ (fun s group => codeOf group = s.code ∧ Led s group) groups

theorem splits_splitAll {cut : Section → List Section} (hshrinks : ∀ s, Shrinks s (cut s))
    (hdivides : ∀ s, Divides s (cut s)) (hled : ∀ s, Led s (cut s)) (sections : List Section) :
    Splits cut sections (splitAll cut sections) := by
  constructor
  · have hend := Worklist.iterate_step_flatMap
      (fun s (_ : s ∈ sections) => Worklist.iterate_step_pieces hshrinks hled (Nat.lt_succ_self _))
      [] []
    rwa [List.append_nil, List.nil_append] at hend
  · refine ⟨_, List.flatMap_def, ?_⟩
    rw [List.forall₂_map_right_iff, List.forall₂_same]
    intro s _
    exact ⟨(divides_pieces hdivides _ s).code, led_pieces hled _ s⟩

/-! ## Dedents -/

theorem le_of_dedentFrom_eq_none {base : Option Nat} {offset : Nat} {ls : List Text}
    (h : dedentFrom base offset ls = none) :
    let widths := (ls.filter fun line => !isBlank line).map indentWidth
    ∀ first ∈ base.or widths.head?, ∀ width ∈ widths, first ≤ width := by
  fun_induction dedentFrom base offset ls with
  | case1 => exact nofun
  | case2 base offset line rest next hblank ih => simpa [hblank] using ih h
  | case3 offset line rest next hblank ih => simpa [hblank] using ih h
  | case4 => cases h
  | case5 offset line rest next hblank width hlt ih =>
    rw [Bool.not_eq_true] at hblank
    have hwidth : width ≤ indentWidth line := Nat.not_lt.1 hlt
    simpa [hblank, hwidth] using ih h

/-- Lines with a dedent still have it when others follow. -/
theorem dedentFrom_append {base : Option Nat} {offset pos : Nat} {xs : List Text}
    (h : dedentFrom base offset xs = some pos) (ys : List Text) :
    dedentFrom base offset (xs ++ ys) = some pos ∧ pos < offset + size xs.flatten := by
  induction xs generalizing base offset with
  | nil => cases h
  | cons line rest ih =>
    have hnext {base : Option Nat}
        (h : dedentFrom base (offset + size line) rest = some pos) :
        dedentFrom base (offset + size line) (rest ++ ys) = some pos ∧
          pos < offset + size (line :: rest).flatten := by
      obtain ⟨hsame, hlt⟩ := ih h
      rw [List.flatten_cons, Text.size_append]
      exact ⟨hsame, by omega⟩
    rw [List.cons_append]
    unfold dedentFrom at h ⊢
    cases hblank : isBlank line with
    | true =>
      simp only [hblank, if_true] at h ⊢
      exact hnext h
    | false =>
      have hsize : size line ≠ 0 := by
        intro hzero
        rw [Text.size_eq_zero_iff.1 hzero] at hblank
        cases hblank
      simp only [hblank, Bool.false_eq_true, if_false] at h ⊢
      cases base with
      | none => exact hnext h
      | some width =>
        dsimp only at h ⊢
        split
        · rename_i hlt
          rw [if_pos hlt] at h
          obtain rfl := Option.some.inj h
          rw [List.flatten_cons, Text.size_append]
          exact ⟨rfl, by omega⟩
        · rename_i hlt
          rw [if_neg hlt] at h
          exact hnext h

theorem steady_of_dedent?_eq_none {code : Text} (h : dedent? code = none) : Steady code :=
  le_of_dedentFrom_eq_none h

/-- Up to its first dedent a text is steady: a dedent before it would be the first one. -/
theorem steady_upTo_of_dedent? {code : Text} {pos : Nat} (h : dedent? code = some pos) :
    Steady (Text.upTo pos code) := by
  obtain ⟨a, b, rfl, rfl, hends⟩ := lineStart_of_dedent? h
  rw [Text.upTo_size_append]
  apply steady_of_dedent?_eq_none
  rw [Option.eq_none_iff_forall_ne_some]
  intro early hearly
  obtain ⟨hsame, hlt⟩ := dedentFrom_append hearly (lines b)
  rw [← Text.lines_append hends, ← dedent?, h, Option.some.injEq] at hsame
  rw [Text.flatten_lines] at hlt
  omega

theorem steady_head_cutAtScope {rules : List ScopeRule} {s : Section} (h : Steady s.code) :
    ∀ p ∈ (cutAtScope rules s).head?, Steady p.code := by
  obtain ⟨scope, next?, hcut, _⟩ := exists_cutAtScope rules s
  rw [hcut]
  cases next? with
  | none =>
    rintro p ⟨⟩
    exact h
  | some next =>
    rintro p ⟨⟩
    exact h.upTo next.start

theorem steady_head_cutAtDedent (rules : List ScopeRule) (s : Section) :
    ∀ p ∈ (cutAtDedent rules s).head?, Steady p.code := by
  rw [head?_cutAtDedent]
  apply steady_head_cutAtScope
  cases hpos : dedent? s.code with
  | none => exact steady_of_dedent?_eq_none hpos
  | some pos => exact steady_upTo_of_dedent? hpos

/-- Both ways of splitting come to an end, whatever the scope rules match, and replace each section
by a group of pieces. -/
theorem splits_and_steady (rules : List ScopeRule) (sections : List Section) :
    Splits (cutAtScope rules) sections (splitByKeyword rules sections) ∧
      Splits (cutAtDedent rules) sections (splitByIndent rules sections) ∧
        ∀ p ∈ splitByIndent rules sections, Steady p.code := by
  refine ⟨?_, ?_, ?_⟩
  · exact splits_splitAll (shrinks_cutAtScope rules) (divides_cutAtScope rules)
      (led_cutAtScope rules) sections
  · exact splits_splitAll (shrinks_cutAtDedent rules) (divides_cutAtDedent rules)
      (led_cutAtDedent rules) sections
  · exact forall_mem_splitAll (shrinks_cutAtDedent rules) (steady_head_cutAtDedent rules) sections

end Scope

end Marginalia
