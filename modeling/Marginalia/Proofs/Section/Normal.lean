import Mathlib.Data.List.Chain
import Marginalia.Proofs.Section.Ink

/-! # Sections in normal form

A fold over neighbours comes to a list in which no neighbours join any more. What absorbing settles
in this way, annotations and the filter at the end leave settled.
-/

namespace Marginalia

theorem Text.holds_iff {part t : Text} : holds part t = true ↔ part <:+: t := by
  induction t with
  | nil => simp [holds]
  | cons c t ih =>
    have hstarts : startsWith part (c :: t) = true ↔ part <+: c :: t := by
      rw [startsWith, Option.isSome_iff_exists]
      simp only [afterHead?_eq_some_iff]
      exact ⟨fun ⟨rest, h⟩ => ⟨rest, h.symm⟩, fun ⟨rest, h⟩ => ⟨rest, h.symm⟩⟩
    rw [holds, Bool.or_eq_true, ih, hstarts, List.infix_cons_iff]

namespace Section

section Chain

variable {R : Section → Section → Prop}

/-- Folding neighbours leaves a chain of whatever holds of neighbours that do not join, as long as
what is merged into a section does not change how it follows the one before it. -/
theorem isChain_foldFrom {joins : Section → Section → Bool} {combine : Section → Section → Section}
    (hR : ∀ s t, joins s t = false → R s t)
    (hcombine : ∀ s t u, joins t u = true → R s t → R s (combine t u)) (s : Section)
    (rest : List Section) :
    (foldFrom joins combine s rest).IsChain R ∧
      ∀ r, R r s → ∀ t ∈ (foldFrom joins combine s rest).head?, R r t := by
  induction rest generalizing s with
  | nil =>
    refine ⟨.singleton s, fun r hr t ht => ?_⟩
    obtain rfl := Option.some.inj ht
    exact hr
  | cons t rest ih =>
    rw [foldFrom]
    split
    · rename_i hjoins
      obtain ⟨hchain, hhead⟩ := ih (combine s t)
      exact ⟨hchain, fun r hr => hhead r (hcombine r s t hjoins hr)⟩
    · rename_i hjoins
      obtain ⟨hchain, hhead⟩ := ih t
      have hst := hR s t (Bool.eq_false_iff.2 hjoins)
      refine ⟨List.isChain_cons.2 ⟨hhead s hst, hchain⟩, fun r hr u hu => ?_⟩
      obtain rfl := Option.some.inj hu
      exact hr

theorem isChain_foldAdjacent {joins : Section → Section → Bool}
    {combine : Section → Section → Section} (hR : ∀ s t, joins s t = false → R s t)
    (hcombine : ∀ s t u, joins t u = true → R s t → R s (combine t u)) (sections : List Section) :
    (foldAdjacent joins combine sections).IsChain R := by
  cases sections with
  | nil => exact .nil
  | cons s rest => exact (isChain_foldFrom hR hcombine s rest).1

/-- A chain stays one without sections over which it can be shortened. -/
theorem isChain_cons_filter {p : Section → Bool}
    (hR : ∀ r s t, p s = false → R r s → R s t → R r t) {r : Section} {sections : List Section}
    (h : (r :: sections).IsChain R) : (r :: sections.filter p).IsChain R := by
  induction sections generalizing r with
  | nil => exact h
  | cons s rest ih =>
    obtain ⟨hrs, hrest⟩ := List.isChain_cons_cons.1 h
    rw [List.filter_cons]
    split
    · exact List.isChain_cons_cons.2 ⟨hrs, ih hrest⟩
    · rename_i hs
      obtain ⟨hhead, htail⟩ := List.isChain_cons.1 hrest
      refine ih (List.isChain_cons.2 ⟨fun t ht => ?_, htail⟩)
      exact hR r s t (Bool.eq_false_iff.2 hs) hrs (hhead t ht)

theorem isChain_filter {p : Section → Bool}
    (hR : ∀ r s t, p s = false → R r s → R s t → R r t) {sections : List Section}
    (h : sections.IsChain R) : (sections.filter p).IsChain R := by
  induction sections with
  | nil => exact .nil
  | cons s rest ih =>
    rw [List.filter_cons]
    split
    · exact isChain_cons_filter hR h
    · exact ih h.of_cons

end Chain

/-- The second of two neighbours is documented or no deeper than the first. -/
def Follows (s t : Section) : Prop := t.hasDocs = false → t.level ≤ s.level

theorem Follows.shorten {r s t : Section} (hs : s.isFilled = false) (hrs : r.Follows s)
    (hst : s.Follows t) : r.Follows t := by
  intro ht
  have hdocs : s.hasDocs = false := (Bool.or_eq_false_iff.1 hs).2
  exact Nat.le_trans (hst ht) (hrs hdocs)

/-- Every section shows something, none is undocumented and deeper than the one before it, and no
decorator is left without the section it belongs to. -/
structure Normal (marker : Option Text) (sections : List Section) : Prop where
  filled : ∀ s ∈ sections, s.hasDocs = true ∨ s.hasCode = true
  follows : sections.IsChain Follows
  decorated : ∀ m ∈ marker, ∀ s ∈ sections.dropLast, ∀ scope ∈ s.scope, ¬ m <:+: scope

theorem pairwise_of_isChain {P : Section → Prop} {sections : List Section}
    (h : sections.IsChain fun s _ => P s) : sections.Pairwise fun s _ => P s := by
  induction sections with
  | nil => exact .nil
  | cons s rest ih =>
    refine List.pairwise_cons.2 ⟨fun t ht => ?_, ih h.of_cons⟩
    obtain ⟨u, others, rfl⟩ := List.exists_cons_of_ne_nil (List.ne_nil_of_mem ht)
    exact (List.isChain_cons_cons.1 h).1

/-- What holds of every section that another one follows holds of all but the last. -/
theorem forall_mem_dropLast {P : Section → Prop} {sections : List Section}
    (h : sections.Pairwise fun s _ => P s) : ∀ s ∈ sections.dropLast, P s := by
  induction sections with
  | nil =>
    intro s hs
    cases hs
  | cons s rest ih =>
    obtain ⟨hs, hrest⟩ := List.pairwise_cons.1 h
    cases rest with
    | nil =>
      intro t ht
      cases ht
    | cons t rest =>
      rw [List.dropLast_cons_cons, List.forall_mem_cons]
      exact ⟨hs t List.mem_cons_self, ih hrest⟩

end Section

open Section (Follows Normal)

namespace Layout

theorem isChain_absorb (sections : List Section) : (absorb sections).IsChain Follows := by
  refine Section.isChain_foldAdjacent (R := Follows) (fun s t h hdocs => ?_) ?_ sections
  · simpa [isAbsorbed, hdocs] using h
  · intro _ _ _ _ h
    exact h

end Layout

namespace Decorator

/-- No section that another one follows is a decorator. -/
def Settled (marker : Text) (sections : List Section) : Prop :=
  sections.Pairwise fun s _ => isDecorator marker s = false

variable {marker : Text} {sections : List Section}

theorem settled_attachAll (marker : Text) (sections : List Section) :
    Settled marker (attachAll marker sections) := by
  refine Section.pairwise_of_isChain ?_
  refine Section.isChain_foldAdjacent (R := fun s _ => isDecorator marker s = false) ?_ ?_ sections
  · intro _ _ h
    exact h
  · intro _ _ _ _ h
    exact h

theorem Settled.absorb (h : Settled marker sections) : Settled marker (Layout.absorb sections) := by
  refine Section.pairwise_foldAdjacent (P := fun s => isDecorator marker s = false) ?_ h
  intro _ _ hs _
  exact hs

theorem Settled.not_infix (h : Settled marker sections) :
    ∀ s ∈ sections.dropLast, ∀ scope ∈ s.scope, ¬ marker <:+: scope := by
  intro s hs scope hscope hmarker
  have hnot := Section.forall_mem_dropLast h s hs
  rw [isDecorator, Option.mem_def.1 hscope, Option.any_some, Text.holds_iff.2 hmarker] at hnot
  cases hnot

end Decorator

theorem LinkRule.exists_annotate (rules : List LinkRule) (head : Text) (sections : List Section) :
    ∃ f : Section → Table Text,
      annotate rules head sections = sections.map fun s => { s with annotations := f s } := by
  refine ⟨fun s => (rules.findSome? fun rule => rule.anchor? s.code).elim s.annotations
    fun anchor => s.annotations.insert Section.anchorKey (head ++ anchor), ?_⟩
  rw [annotate]
  refine List.map_congr_left fun s _ => ?_
  dsimp only
  cases rules.findSome? fun rule => rule.anchor? s.code <;> rfl

/-- The end of a layout: what is absorbed, annotated or not, comes out in normal form. -/
theorem Section.normal_keepFilled {marker : Option Text} {sections : List Section}
    (hfollows : sections.IsChain Follows)
    (hsettled : ∀ m ∈ marker, Decorator.Settled m sections) :
    Normal marker (keepFilled sections) := by
  constructor
  · intro s hs
    have hfilled := (List.mem_filter.1 hs).2
    rw [isFilled, Bool.or_eq_true] at hfilled
    exact hfilled.symm
  · exact isChain_filter (fun _ _ _ => Follows.shorten) hfollows
  · intro m hm
    have hkept : Decorator.Settled m (keepFilled sections) :=
      List.Pairwise.filter isFilled (hsettled m hm)
    exact hkept.not_infix

end Marginalia
