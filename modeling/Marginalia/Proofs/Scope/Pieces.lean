import Marginalia.Proofs.Section.Texts
import Marginalia.Scope.Split

/-! # The pieces of a section

However a section is cut, its pieces put together have its code and its documentation.
-/

namespace Marginalia.Scope

open Section (codeOf docsOf)

/-- The parts hold the texts of a section, in order. -/
structure Divides (s : Section) (parts : List Section) : Prop where
  code : codeOf parts = s.code
  docs : docsOf parts = s.docs

theorem divides_singleton {s t : Section} (hcode : t.code = s.code) (hdocs : t.docs = s.docs) :
    Divides s [t] :=
  ⟨by simp [hcode], by simp [hdocs]⟩

/-- A section cut at a match, if there is one. -/
def cutAt (s : Section) : Option ScopeMatch → List Section
  | none => [s]
  | some next => [(s.splitAt next.start).1,
      { (s.splitAt next.start).2 with scope := some next.label }]

theorem divides_cutAt (s : Section) (next? : Option ScopeMatch) : Divides s (cutAt s next?) := by
  cases next? with
  | none => exact divides_singleton rfl rfl
  | some next =>
    constructor
    · simpa [cutAt] using s.codeOf_splitAt next.start
    · simp [cutAt, Section.splitAt]

variable {rules : List ScopeRule} {s : Section}

theorem cutAtScope_of_idle (h : (rules.isEmpty || !s.hasCode) = true) : cutAtScope rules s = [s] :=
  if_pos h

/-- A match up to the first line that is not blank labels the section, and the cut is at the next
one; any other match is where the section is cut. -/
theorem cutAtScope_eq (h : (rules.isEmpty || !s.hasCode) = false) :
    cutAtScope rules s =
      match ScopeRule.findFirst rules s.code 0 with
      | none => [s]
      | some own =>
        if own.start ≤ contentOffset (Text.lines s.code) then
          cutAt { s with scope := some own.label } (ScopeRule.findFirst rules s.code
            (max own.stop (contentOffset (Text.lines s.code) + 1)))
        else cutAt s (some own) := by
  rw [cutAtScope, if_neg (by simp [h])]
  cases ScopeRule.findFirst rules s.code 0 with
  | none => rfl
  | some own =>
    by_cases hown : own.start ≤ contentOffset (Text.lines s.code)
    · simp only [hown, if_true]
      cases ScopeRule.findFirst rules s.code _ <;> rfl
    · simp only [hown, if_false]
      rfl

/-- What a cut at a scope comes to: the section, perhaps with another label, cut at a match. -/
theorem exists_cutAtScope (rules : List ScopeRule) (s : Section) :
    ∃ (scope : Option Text) (next? : Option ScopeMatch),
      cutAtScope rules s = cutAt { s with scope } next? ∧
        ∀ next ∈ next?, ∃ offset, ScopeRule.findFirst rules s.code offset = some next ∧
          (0 < offset ∨ 0 < next.start) := by
  cases hidle : rules.isEmpty || !s.hasCode with
  | true => exact ⟨s.scope, none, cutAtScope_of_idle hidle, nofun⟩
  | false =>
    rw [cutAtScope_eq hidle]
    cases hown : ScopeRule.findFirst rules s.code 0 with
    | none => exact ⟨s.scope, none, rfl, nofun⟩
    | some own =>
      dsimp only
      split
      · refine ⟨some own.label, _, rfl, ?_⟩
        intro next hnext
        exact ⟨_, hnext, .inl (by omega)⟩
      · refine ⟨s.scope, some own, rfl, ?_⟩
        rintro next ⟨⟩
        exact ⟨0, hown, .inr (by omega)⟩

theorem divides_cutAtScope (rules : List ScopeRule) (s : Section) :
    Divides s (cutAtScope rules s) := by
  obtain ⟨scope, next?, hcut, _⟩ := exists_cutAtScope rules s
  obtain ⟨hcode, hdocs⟩ := divides_cutAt { s with scope } next?
  rw [hcut]
  exact ⟨hcode, hdocs⟩

theorem divides_cutAtDedent (rules : List ScopeRule) (s : Section) :
    Divides s (cutAtDedent rules s) := by
  rw [cutAtDedent]
  split
  · exact divides_cutAtScope rules s
  · rename_i pos _
    obtain ⟨hcode, hdocs⟩ := divides_cutAtScope rules (s.splitAt pos).1
    constructor
    · simpa [hcode] using s.codeOf_splitAt pos
    · rw [Section.docsOf_append, hdocs]
      simp [Section.splitAt]

theorem codeOf_flatMap {f : Section → List Section} (h : ∀ s, Divides s (f s))
    (sections : List Section) : codeOf (sections.flatMap f) = codeOf sections := by
  induction sections with
  | nil => rfl
  | cons s rest ih =>
    rw [List.flatMap_cons, Section.codeOf_append, (h s).code, ih, Section.codeOf_cons]

theorem docsOf_flatMap {f : Section → List Section} (h : ∀ s, Divides s (f s))
    (sections : List Section) : docsOf (sections.flatMap f) = docsOf sections := by
  induction sections with
  | nil => rfl
  | cons s rest ih =>
    rw [List.flatMap_cons, Section.docsOf_append, (h s).docs, ih, Section.docsOf_cons]

theorem divides_pieces {cut : Section → List Section} (hcut : ∀ s, Divides s (cut s)) (fuel : Nat)
    (s : Section) : Divides s (pieces cut fuel s) := by
  induction fuel generalizing s with
  | zero => exact divides_singleton rfl rfl
  | succ fuel ih =>
    obtain ⟨hcode, hdocs⟩ := hcut s
    rw [pieces]
    split
    · rename_i hnil
      rw [hnil] at hcode hdocs
      exact ⟨hcode, hdocs⟩
    · rename_i first rest hparts
      rw [hparts] at hcode hdocs
      constructor
      · rw [Section.codeOf_cons, codeOf_flatMap ih, ← Section.codeOf_cons, hcode]
      · rw [Section.docsOf_cons, docsOf_flatMap ih, ← Section.docsOf_cons, hdocs]

end Marginalia.Scope
