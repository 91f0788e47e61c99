import Marginalia.Proofs.Comment.Extraction
import Marginalia.Proofs.Scope.Groups
import Marginalia.Proofs.Scope.Titled
import Marginalia.Proofs.Language.Normal
import Marginalia.Proofs.Section.WholeLines

/-! # Labels along a pipeline

While comments are taken out there are no labels and no annotations (`raw_run`). Splitting gives a
section the label of one of its lines, and as long as lines stay whole, merges take this line along
(`labelled_run`).
-/

namespace Marginalia

open Scope (Titled labelOf)
open Section (Closed)
open Text (EndsLine lines)

namespace Section

/-- Nothing is known of the section but its texts. -/
structure Raw (s : Section) : Prop where
  scope_eq : s.scope = none
  annotations_eq : s.annotations = ∅

theorem raw_partsBy {s : Section} (h : s.Raw) (finish : Text → Text) (spans : List Span) :
    ∀ p ∈ s.partsBy finish spans, p.Raw := by
  cases spans with
  | nil =>
    intro p hp
    rwa [List.mem_singleton.1 hp]
  | cons span rest =>
    refine List.forall_mem_cons.2 ⟨⟨h.scope_eq, h.annotations_eq⟩, fun p hp => ?_⟩
    obtain ⟨part, _, hp⟩ := List.mem_flatMap.1 hp
    rcases List.mem_cons.1 hp with rfl | hp
    · exact ⟨rfl, rfl⟩
    · split at hp
      · cases hp
      · rw [List.mem_singleton.1 hp]
        exact ⟨rfl, rfl⟩

/-- A label of the section is that of one of its lines. -/
def Labelled (rules : List ScopeRule) (s : Section) : Prop :=
  ∀ label ∈ s.scope, ∃ line ∈ lines s.code, labelOf rules line = some label

theorem labelled_of_titled {rules : List ScopeRule} {s : Section} (h : Titled rules s) :
    s.Labelled rules := by
  intro label hlabel
  obtain ⟨blanks, first, later, hbegins, hfirst⟩ := h label hlabel
  refine ⟨first, ?_, hfirst⟩
  rw [hbegins.lines_eq]
  simp

/-- Whole lines stay when more code follows them. -/
theorem Labelled.append {rules : List ScopeRule} {s t u : Section} (hs : s.Labelled rules)
    (ht : t.Labelled rules) (hends : EndsLine s.code) (hcode : u.code = s.code ++ t.code)
    (hscope : ∀ label ∈ u.scope, label ∈ s.scope ∨ label ∈ t.scope) : u.Labelled rules := by
  intro label hlabel
  rw [hcode, Text.lines_append hends]
  rcases hscope label hlabel with hlabel | hlabel
  · obtain ⟨line, hline, hfirst⟩ := hs label hlabel
    exact ⟨line, List.mem_append_left _ hline, hfirst⟩
  · obtain ⟨line, hline, hfirst⟩ := ht label hlabel
    exact ⟨line, List.mem_append_right _ hline, hfirst⟩

end Section

theorem Extraction.raw_run (e : Extraction) (g : Grammar) {sections : List Section}
    (h : ∀ s ∈ sections, s.Raw) : ∀ p ∈ e.pass.run g sections, p.Raw := by
  intro p hp
  rw [e.run_eq] at hp
  obtain ⟨s, hs, hp⟩ := List.mem_flatMap.1 hp
  exact Section.raw_partsBy (h s hs) _ _ p hp

theorem Layout.exists_of_mem_setLevels {p : Section} {sections : List Section}
    (hp : p ∈ setLevels sections) : ∃ s ∈ sections, ∃ level, p = { s with level } := by
  suffices h : ∀ previous, p ∈ levelsFrom previous sections →
      ∃ s ∈ sections, ∃ level, p = { s with level } from h 0 hp
  clear hp
  induction sections with
  | nil => exact fun _ h => absurd h List.not_mem_nil
  | cons s rest ih =>
    intro previous h
    rcases List.mem_cons.1 h with rfl | h
    · exact ⟨s, List.mem_cons_self, _, rfl⟩
    · obtain ⟨t, ht, hp⟩ := ih _ h
      exact ⟨t, List.mem_cons_of_mem _ ht, hp⟩

/-- Where there are no annotations yet, an anchor is the one of the first rule that gives one. -/
theorem LinkRule.anchor?_of_mem_annotate {rules : List LinkRule} {head : Text}
    {sections : List Section} (h : ∀ s ∈ sections, s.annotations = ∅) :
    ∀ p ∈ annotate rules head sections,
      p.anchor? = (rules.findSome? fun rule => rule.anchor? p.code).map (head ++ ·) := by
  rw [annotate, List.forall_mem_map]
  intro s hs
  cases hfound : rules.findSome? fun rule => rule.anchor? s.code with
  | none =>
    dsimp only
    rw [hfound, Section.anchor?, h s hs]
    rfl
  | some anchor =>
    dsimp only
    rw [hfound, Section.anchor?, Table.find?_insert, if_pos rfl]
    rfl

theorem Scope.annotations_of_led {s : Section} {parts : List Section} (h : Led s parts)
    (hs : s.annotations = ∅) : ∀ p ∈ parts, p.annotations = ∅ := by
  obtain ⟨first, rest, rfl, hfirst, hrest⟩ := h
  refine List.forall_mem_cons.2 ⟨?_, fun p hp => ?_⟩
  · exact (congrArg (·.2.2) hfirst).trans hs
  · exact congrArg (·.2.2) (hrest p hp)

namespace Rearrangement

variable {g : Grammar} {sections : List Section}

/-- Annotations are made by links only. -/
theorem annotations_run {r : Rearrangement} (hr : r ≠ addLinks)
    (h : ∀ s ∈ sections, s.annotations = ∅) : ∀ p ∈ r.pass.run g sections, p.annotations = ∅ := by
  have hextend (s t : Section) (hs : s.annotations = ∅) (ht : t.annotations = ∅) :
      s.annotations.extend t.annotations = ∅ := by
    rw [hs, ht]
    rfl
  cases r with
  | setLevels =>
    intro p hp
    obtain ⟨s, hs, _, rfl⟩ := Layout.exists_of_mem_setLevels hp
    exact h s hs
  | alignDocs =>
    intro p hp
    obtain ⟨s, hs, rfl⟩ := List.mem_map.1 hp
    exact h s hs
  | splitByIndent =>
    exact Scope.forall_mem_splitAll_of_cut
      (fun s => Scope.annotations_of_led (Scope.led_cutAtDedent g.scopeRules s)) h
  | splitByKeyword =>
    exact Scope.forall_mem_splitAll_of_cut
      (fun s => Scope.annotations_of_led (Scope.led_cutAtScope g.scopeRules s)) h
  | mergeUp => exact Section.forall_mem_foldAdjacent hextend h
  | mergeDown => exact Section.forall_mem_foldAdjacent hextend h
  | attachDecorators =>
    simp only [pass, Pass.attachDecorators]
    split
    · exact h
    · exact Section.forall_mem_foldAdjacent hextend h
  | absorb => exact Section.forall_mem_foldAdjacent hextend h
  | addLinks => exact absurd rfl hr
  | keepFilled => exact fun p hp => h p (List.mem_filter.1 hp).1

theorem titled_run {r : Rearrangement}
    (hr : r ∈ [setLevels, alignDocs, splitByIndent, splitByKeyword])
    (hrules : ∀ rule ∈ g.scopeRules, rule.LineLocal) (h : ∀ s ∈ sections, Titled g.scopeRules s) :
    ∀ p ∈ r.pass.run g sections, Titled g.scopeRules p := by
  cases r with
  | setLevels =>
    intro p hp
    obtain ⟨s, hs, _, rfl⟩ := Layout.exists_of_mem_setLevels hp
    exact h s hs
  | alignDocs =>
    intro p hp
    obtain ⟨s, hs, rfl⟩ := List.mem_map.1 hp
    exact h s hs
  | splitByIndent =>
    exact Scope.forall_mem_splitAll_of_cut (fun _ => Scope.titled_cutAtDedent hrules) h
  | splitByKeyword =>
    exact Scope.forall_mem_splitAll_of_cut (fun _ => Scope.titled_cutAtScope hrules) h
  | _ => exact absurd hr (by decide)

theorem labelled_run {rules : List ScopeRule} {r : Rearrangement}
    (hr : r ∉ [splitByIndent, splitByKeyword]) (hclosed : Closed sections)
    (h : ∀ s ∈ sections, s.Labelled rules) : ∀ p ∈ r.pass.run g sections, p.Labelled rules := by
  have hfold {joins : Section → Section → Bool} {combine : Section → Section → Section}
      (hcode : ∀ s t, EndsLine s.code → (combine s t).code = s.code ++ t.code)
      (hscope : ∀ s t, ∀ label ∈ (combine s t).scope, label ∈ s.scope ∨ label ∈ t.scope) :
      ∀ p ∈ Section.foldAdjacent joins combine sections, p.Labelled rules := by
    refine Section.forall_mem_foldAdjacent_of_pairwise (fun s t hs ht => ?_)
      (fun s t hends hs ht => hs.append ht hends (hcode s t hends) (hscope s t)) hclosed h
    rw [hcode s t hs]
    exact hs.append ht
  have hor {a b : Option Text} : ∀ label ∈ a.or b, label ∈ a ∨ label ∈ b :=
    fun _ hlabel => (Option.or_eq_some_iff.1 hlabel).imp_right And.right
  cases r with
  | setLevels =>
    intro p hp
    obtain ⟨s, hs, _, rfl⟩ := Layout.exists_of_mem_setLevels hp
    exact h s hs
  | alignDocs =>
    intro p hp
    obtain ⟨s, hs, rfl⟩ := List.mem_map.1 hp
    exact h s hs
  | splitByIndent => exact absurd List.mem_cons_self hr
  | splitByKeyword => exact absurd (by decide) hr
  | mergeUp => exact hfold (fun _ _ _ => rfl) fun _ _ => hor
  | mergeDown => exact hfold (fun _ _ _ => rfl) fun _ _ label hlabel => (hor label hlabel).symm
  | attachDecorators =>
    simp only [pass, Pass.attachDecorators]
    split
    · exact h
    · exact hfold (fun _ _ _ => rfl) fun _ _ _ => .inr
  | absorb => exact hfold (fun _ t hs => Layout.code_absorbInto hs t) fun _ _ _ => .inl
  | addLinks =>
    obtain ⟨f, hannotate⟩ := LinkRule.exists_annotate g.linkRules g.anchorHead sections
    change ∀ p ∈ LinkRule.annotate g.linkRules g.anchorHead sections, p.Labelled rules
    rw [hannotate, List.forall_mem_map]
    exact h
  | keepFilled => exact fun p hp => h p (List.mem_filter.1 hp).1

theorem annotations_steps {steps : List Rearrangement} (hsteps : addLinks ∉ steps)
    (h : ∀ s ∈ sections, s.annotations = ∅) :
    ∀ p ∈ Pipeline.run ⟨steps.map pass⟩ g sections, p.annotations = ∅ := by
  induction steps generalizing sections with
  | nil => exact h
  | cons r steps ih =>
    rw [List.mem_cons, not_or] at hsteps
    exact ih hsteps.2 (annotations_run (Ne.symm hsteps.1) h)

theorem closed_steps (hg : g.ByLines) (steps : List Rearrangement) (h : Closed sections) :
    Closed (Pipeline.run ⟨steps.map pass⟩ g sections) := by
  induction steps generalizing sections with
  | nil => exact h
  | cons r steps ih => exact ih (r.keepsLines_pass hg h).closed

theorem titled_steps {steps : List Rearrangement}
    (hsteps : ∀ r ∈ steps, r ∈ [setLevels, alignDocs, splitByIndent, splitByKeyword])
    (hrules : ∀ rule ∈ g.scopeRules, rule.LineLocal) (h : ∀ s ∈ sections, Titled g.scopeRules s) :
    ∀ p ∈ Pipeline.run ⟨steps.map pass⟩ g sections, Titled g.scopeRules p := by
  induction steps generalizing sections with
  | nil => exact h
  | cons r steps ih =>
    rw [List.forall_mem_cons] at hsteps
    exact ih hsteps.2 (titled_run hsteps.1 hrules h)

theorem labelled_steps {rules : List ScopeRule} {steps : List Rearrangement}
    (hsteps : ∀ r ∈ steps, r ∉ [splitByIndent, splitByKeyword]) (hg : g.ByLines)
    (hclosed : Closed sections) (h : ∀ s ∈ sections, s.Labelled rules) :
    ∀ p ∈ Pipeline.run ⟨steps.map pass⟩ g sections, p.Labelled rules := by
  induction steps generalizing sections with
  | nil => exact h
  | cons r steps ih =>
    rw [List.forall_mem_cons] at hsteps
    exact ih hsteps.2 (r.keepsLines_pass hg hclosed).closed (labelled_run hsteps.1 hclosed h)

/-- First sections are split, then they are merged: every label stands for a line of its section. -/
theorem labelled_layout {early late : List Rearrangement}
    (hearly : ∀ r ∈ early, r ∈ [setLevels, alignDocs, splitByIndent, splitByKeyword])
    (hlate : ∀ r ∈ late, r ∉ [splitByIndent, splitByKeyword]) (hg : g.ByLines)
    (hrules : ∀ rule ∈ g.scopeRules, rule.LineLocal) (hclosed : Closed sections)
    (h : ∀ s ∈ sections, s.scope = none) :
    ∀ p ∈ Pipeline.run ⟨(early ++ late).map pass⟩ g sections, p.Labelled g.scopeRules := by
  rw [List.map_append, Pipeline.run_append]
  have htitled := titled_steps hearly hrules fun s hs => Scope.titled_of_none (h s hs)
  exact labelled_steps hlate hg (closed_steps hg early hclosed)
    fun s hs => Section.labelled_of_titled (htitled s hs)

end Rearrangement

end Marginalia
