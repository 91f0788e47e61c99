import Marginalia.Proofs.Section.Normal

/-! # Merges come to rest

A fold over neighbours compares each section with the one before it only once. That is enough: what
is merged into a section never makes it join the section before it. So after one run no neighbours
join, and a second run has nothing to do (`settled_and_idempotent`).
-/

namespace Marginalia

namespace Section

variable {joins : Section → Section → Bool} {combine : Section → Section → Section}

theorem foldFrom_eq_cons {s : Section} {rest : List Section}
    (h : (s :: rest).IsChain fun s t => joins s t = false) :
    foldFrom joins combine s rest = s :: rest := by
  induction rest generalizing s with
  | nil => rfl
  | cons t rest ih =>
    obtain ⟨hst, hrest⟩ := List.isChain_cons_cons.1 h
    rw [foldFrom, hst, if_neg Bool.false_ne_true, ih hrest]

theorem foldAdjacent_eq_self {sections : List Section}
    (h : sections.IsChain fun s t => joins s t = false) :
    foldAdjacent joins combine sections = sections := by
  cases sections with
  | nil => rfl
  | cons s rest => exact foldFrom_eq_cons h

theorem foldAdjacent_pair_iff (s t : Section) :
    foldAdjacent joins combine [s, t] = [s, t] ↔ joins s t = false := by
  rw [foldAdjacent, foldFrom]
  cases joins s t with
  | false => simp [foldFrom]
  | true => simp [foldFrom]

end Section

/-- The passes that merge neighbours. -/
inductive Merging where
  | up
  | down
  | decorators
  | absorb
  deriving DecidableEq

namespace Merging

def pass : Merging → Pass
  | up => .mergeUp
  | down => .mergeDown
  | decorators => .attachDecorators
  | absorb => .absorb

/-- When the second of two neighbours becomes part of the first. -/
def Joins (g : Grammar) : Merging → Section → Section → Prop
  | up, s, t => s.hasCode = true ∧ s.hasDocs = false ∧
      ScopeRule.opensBlock g.scopeRules s.code = true ∧ t.hasCode = false
  | down, s, t => s.hasDocs = true ∧ s.hasCode = false ∧ t.hasDocs = false ∧ t.hasCode = true
  | decorators, s, _ => ∃ marker ∈ g.decoratorMarker, ∃ scope ∈ s.scope, marker <:+: scope
  | absorb, s, t => t.hasDocs = false ∧ s.level < t.level

def joins (g : Grammar) : Merging → Section → Section → Bool
  | up => Layout.joinsUp g.scopeRules
  | down => Layout.joinsDown
  | decorators => fun s _ => g.decoratorMarker.any fun marker => Decorator.isDecorator marker s
  | absorb => Layout.isAbsorbed

def combine : Merging → Section → Section → Section
  | up => Layout.mergeKeepingScope
  | down => Section.merge
  | decorators => Decorator.attach
  | absorb => Layout.absorbInto

variable {g : Grammar} {s t u : Section}

theorem joins_iff {m : Merging} : m.joins g s t = true ↔ m.Joins g s t := by
  cases m with
  | up =>
    simp only [joins, Joins, Layout.joinsUp, Bool.and_eq_true, Bool.not_eq_true']
    tauto
  | down =>
    simp only [joins, Joins, Layout.joinsDown, Bool.and_eq_true, Bool.not_eq_true']
    tauto
  | decorators =>
    simp only [joins, Joins, Decorator.isDecorator, Option.any_eq_true, Text.holds_iff,
      Option.mem_def]
  | absorb =>
    simp only [joins, Joins, Layout.isAbsorbed, Bool.and_eq_true, Bool.not_eq_true',
      decide_eq_true_eq]

theorem joins_eq_false_iff {m : Merging} : m.joins g s t = false ↔ ¬ m.Joins g s t := by
  rw [← joins_iff, Bool.not_eq_true]

theorem run_eq (m : Merging) (g : Grammar) (sections : List Section) :
    m.pass.run g sections = Section.foldAdjacent (m.joins g) m.combine sections := by
  cases m with
  | up => rfl
  | down => rfl
  | decorators =>
    simp only [pass, Pass.attachDecorators]
    cases hmarker : g.decoratorMarker with
    | some marker =>
      simp only [joins, hmarker, Option.any_some]
      rfl
    | none =>
      -- Without a marker there are no decorators, so that the fold is idle.
      have hidle (s t : Section) : joins g decorators s t = false := by
        simp only [joins, hmarker, Option.any_none]
      exact (Section.foldAdjacent_eq_self (List.pairwise_of_forall hidle).isChain).symm
  | absorb => rfl

/-- A section that something was merged into joins the one before it no more than it did. -/
theorem joins_combine {m : Merging} (htu : m.Joins g t u) (hst : ¬ m.Joins g s t) :
    ¬ m.Joins g s (m.combine t u) := by
  cases m with
  | up =>
    -- What is merged up goes to a section that has code and so is not documentation itself.
    have hcode : (Layout.mergeKeepingScope t u).hasCode = true := by
      have ht : Text.isBlank t.code = false := by simpa [Section.hasCode] using htu.1
      simp [Section.hasCode, Layout.mergeKeepingScope, Section.merge, ht]
    rintro ⟨_, _, _, hnone⟩
    exact absurd (hcode.symm.trans hnone) (by decide)
  | down =>
    have hdocs : (Section.merge t u).hasDocs = true := by
      have ht : Text.isBlank t.docs = false := by simpa [Section.hasDocs] using htu.1
      simp [Section.hasDocs, Section.merge, ht]
    rintro ⟨_, _, hnone, _⟩
    exact absurd (hdocs.symm.trans hnone) (by decide)
  | decorators => exact hst
  | absorb => exact hst

/-- One run of a merging pass leaves no neighbours that it would merge, and a second run leaves all
as it is. -/
theorem settled_and_idempotent (m : Merging) (g : Grammar) (sections : List Section) :
    (∀ s t, m.pass.run g [s, t] = [s, t] ↔ ¬ m.Joins g s t) ∧
    (m.pass.run g sections).IsChain (fun s t => ¬ m.Joins g s t) ∧
    m.pass.run g (m.pass.run g sections) = m.pass.run g sections := by
  have hchain : (m.pass.run g sections).IsChain fun s t => ¬ m.Joins g s t := by
    rw [run_eq]
    refine Section.isChain_foldAdjacent (fun s t => joins_eq_false_iff.1) ?_ sections
    intro s t u htu hst
    exact joins_combine (joins_iff.1 htu) hst
  refine ⟨fun s t => ?_, hchain, ?_⟩
  · rw [run_eq, Section.foldAdjacent_pair_iff, joins_eq_false_iff]
  · rw [run_eq m g (m.pass.run g sections)]
    exact Section.foldAdjacent_eq_self (hchain.imp fun _ _ => joins_eq_false_iff.2)

end Merging

end Marginalia
