import Marginalia.Capability
import Marginalia.Proofs.Comment.Block
import Marginalia.Proofs.Comment.Docstring
import Marginalia.Proofs.Comment.Inline
import Marginalia.Proofs.Scope.Closed
import Marginalia.Proofs.Section.Ink

/-! # Passes that keep lines whole

Where scopes and paired comments are only found at the start of lines, every pass leaves a closed
list of sections closed, and a rearrangement keeps the lines of code that are not blank.
-/

namespace Marginalia

open Section (Closed Closes)
open Text (EndsLine inkedLines)

/-- Scopes and paired comments start where lines do. -/
structure Grammar.ByLines (g : Grammar) : Prop where
  scopes : ∀ rule ∈ g.scopeRules, rule.pattern.pattern.startsLine = true
  blocks : ∀ kind ∈ g.blocks, kind.opening.pattern.startsLine = true

namespace Section

def codeLines (sections : List Section) : List Text := sections.flatMap fun s => inkedLines s.code

theorem codeLines_eq {sections : List Section} (h : Closed sections) :
    codeLines sections = inkedLines (codeOf sections) :=
  (Text.inkedLines_flatMap h).symm

/-- Sections that are closed if others are, with the same lines of code. -/
structure KeepsLines (sections result : List Section) : Prop where
  closed : Closed result
  lines : codeLines result = codeLines sections

theorem KeepsLines.refl {sections : List Section} (h : Closed sections) :
    KeepsLines sections sections :=
  ⟨h, rfl⟩

theorem KeepsLines.trans {xs ys zs : List Section} (h : KeepsLines xs ys) (h' : KeepsLines ys zs) :
    KeepsLines xs zs :=
  ⟨h'.closed, h'.lines.trans h.lines⟩

theorem closed_iff {sections : List Section} :
    Closed sections ↔ (sections.map (·.code)).Pairwise fun code _ => EndsLine code := by
  rw [List.pairwise_map]
  rfl

theorem keepsLines_of_map {sections result : List Section} (h : Closed sections)
    (hcode : result.map (·.code) = sections.map (·.code)) : KeepsLines sections result := by
  constructor
  · rwa [closed_iff, hcode, ← closed_iff]
  · have hlines (xs : List Section) : codeLines xs = (xs.map (·.code)).flatMap inkedLines := by
      rw [codeLines, List.flatMap_map]
    rw [hlines, hlines, hcode]

theorem keepsLines_foldAdjacent {joins : Section → Section → Bool}
    {combine : Section → Section → Section}
    (hcombine : ∀ s t, EndsLine s.code → (combine s t).code = s.code ++ t.code)
    {sections : List Section} (h : Closed sections) :
    KeepsLines sections (foldAdjacent joins combine sections) := by
  have hend (s t : Section) (hs : EndsLine s.code) (ht : EndsLine t.code) :
      EndsLine (combine s t).code := by
    rw [hcombine s t hs]
    exact hs.append ht
  refine ⟨pairwise_foldAdjacent hend h, flatMap_foldAdjacent hend (fun s t hs _ => ?_) h⟩
  rw [hcombine s t hs, inkedLines, Text.lines_append hs, List.filter_append]
  rfl

theorem keepsLines_splitAll {cut : Section → List Section} (hcut : ∀ s, Closes s.code (cut s))
    (hdivides : ∀ s, Scope.Divides s (cut s)) {sections : List Section} (h : Closed sections) :
    KeepsLines sections (Scope.splitAll cut sections) := by
  refine ⟨Scope.closed_splitAll hcut h, ?_⟩
  rw [codeLines, codeLines, Scope.splitAll, List.flatMap_assoc, List.flatMap_def, List.flatMap_def]
  refine congrArg List.flatten (List.map_congr_left fun s _ => ?_)
  have hpieces := (Scope.closes_pieces hcut (s.code.length + 1) s).closed
  rw [← codeLines, codeLines_eq hpieces, (Scope.divides_pieces hdivides _ s).code]

theorem keepsLines_keepFilled {sections : List Section} (h : Closed sections) :
    KeepsLines sections (keepFilled sections) :=
  ⟨h.keepFilled, inkedLines_keepFilled sections⟩

end Section

open Section

/-- A text that ends a line is absorbed into without a newline of its own. -/
theorem Layout.code_absorbInto {s : Section} (hs : EndsLine s.code) (t : Section) :
    (absorbInto s t).code = s.code ++ t.code := by
  have hending : (s.code.isEmpty || s.code.getLast? = some '\n') = true := by
    rw [Bool.or_eq_true, List.isEmpty_iff, decide_eq_true_iff]
    exact Text.endsLine_iff.1 hs
  rw [absorbInto]
  simp only [hending, if_true, List.append_nil]

namespace Rearrangement

theorem keepsLines_pass (r : Rearrangement) {g : Grammar} (hg : g.ByLines)
    {sections : List Section} (h : Closed sections) :
    KeepsLines sections (r.pass.run g sections) := by
  cases r with
  | setLevels => exact keepsLines_of_map h (Layout.map_code_levelsFrom 0 sections)
  | alignDocs =>
    refine keepsLines_of_map h ?_
    simp only [pass, Pass.alignDocs, Layout.alignDocs, List.map_map]
    rfl
  | splitByIndent =>
    exact keepsLines_splitAll (Scope.closes_cutAtDedent hg.scopes)
      (Scope.divides_cutAtDedent g.scopeRules) h
  | splitByKeyword =>
    exact keepsLines_splitAll (Scope.closes_cutAtScope hg.scopes)
      (Scope.divides_cutAtScope g.scopeRules) h
  | mergeUp => exact keepsLines_foldAdjacent (fun _ _ _ => rfl) h
  | mergeDown => exact keepsLines_foldAdjacent (fun _ _ _ => rfl) h
  | attachDecorators =>
    simp only [pass, Pass.attachDecorators]
    split
    · exact .refl h
    · exact keepsLines_foldAdjacent (fun _ _ _ => rfl) h
  -- A section that another one follows ends a line, so no newline is put between the two.
  | absorb => exact keepsLines_foldAdjacent (fun _ t hs => Layout.code_absorbInto hs t) h
  | addLinks => exact keepsLines_of_map h (LinkRule.map_code_annotate _ _ sections)
  | keepFilled => exact keepsLines_keepFilled h

end Rearrangement

theorem Decoration.keepsLines_stripAll {sections : List Section} (h : Closed sections) :
    KeepsLines sections (stripAll sections) := by
  refine keepsLines_of_map h ?_
  rw [stripAll, List.map_map]
  refine List.map_congr_left fun s _ => ?_
  rw [Function.comp_apply]
  split <;> rfl

namespace CapabilityKind

theorem closed_pass {k : CapabilityKind} (hk : k.placement = .before Pass.setLevels.name)
    {g : Grammar} (hg : g.ByLines) {sections : List Section} (h : Closed sections) :
    Closed (k.pass.run g sections) := by
  cases k with
  | inlineComment =>
    simp only [pass, Pass.extractInline]
    split
    · exact h
    · exact InlineComment.closed_extract h
  | blockComment => exact BlockComment.closed_extract hg.blocks h
  | docstring =>
    simp only [pass, Pass.extractDocstrings]
    split
    · exact Docstring.closed_extract h
    · exact h
  | _ => exact absurd hk (by decide)

theorem keepsLines_pass {k : CapabilityKind} (hk : k.placement ≠ .before Pass.setLevels.name)
    {g : Grammar} (hg : g.ByLines) {sections : List Section} (h : Closed sections) :
    KeepsLines sections (k.pass.run g sections) := by
  cases k with
  | commentDecoration =>
    simp only [pass, Pass.stripDecoration]
    split
    · exact Decoration.keepsLines_stripAll h
    · exact .refl h
  | indentBlock => exact Rearrangement.keepsLines_pass .splitByIndent hg h
  | braceBlock => exact Rearrangement.keepsLines_pass .splitByKeyword hg h
  | decoratorMerge => exact Rearrangement.keepsLines_pass .attachDecorators hg h
  | keywordLink => exact Rearrangement.keepsLines_pass .addLinks hg h
  | _ => exact absurd rfl hk

end CapabilityKind

end Marginalia
