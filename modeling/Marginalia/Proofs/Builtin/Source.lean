import Marginalia.Builtin.All
import Marginalia.Proofs.Language.Stages
import Marginalia.Regex.Leftmost
import Marginalia.Render.Divider

/-! # The built-in source languages

What the built-in languages have in common is read off their outlines once (`check_outlines`). Lines
of code come out of a segmentation as they are once the comments are taken out.
-/

namespace Marginalia

instance (g : Grammar) : Decidable g.ByLines :=
  decidable_of_iff
    ((∀ rule ∈ g.scopeRules, rule.pattern.pattern.startsLine = true) ∧
      ∀ kind ∈ g.blocks, kind.opening.pattern.startsLine = true)
    ⟨fun h => ⟨h.1, h.2⟩, fun h => ⟨h.scopes, h.blocks⟩⟩

/-- Whether a divider is a comment that the plain highlighter marks. -/
def InlineComment.readsDivider (c : InlineComment) : Bool :=
  Divider.isDividerLine (c.delimiter ++ Divider.word) &&
    c.ignored.all fun re =>
      re.pattern.loopsRead && (re.pattern.leftmost 0 none Divider.word).isNone

/-- The kinds of comments that a language knows, in the order in which they are taken out. -/
def Language.commentKinds (l : Language) : List CapabilityKind :=
  l.capabilities.filter fun k => k.placement = .before Pass.setLevels.name

namespace Builtin

structure IsSource (l : Language) : Prop where
  builtin : ∃ ls, languages = .ok ls ∧ l ∈ ls
  kind_eq : l.kind = .source

theorem IsSource.exists_outline {l : Language} (h : IsSource l) :
    ∃ o ∈ outlines, o.build = .ok l := by
  obtain ⟨ls, hls, hl⟩ := h.builtin
  exact exists_of_mem_mapM hls hl

/-- The orders in which the built-in source languages take comments out. -/
def commentOrders : List (List CapabilityKind) :=
  [[.inlineComment], [.blockComment, .inlineComment], [.inlineComment, .blockComment],
    [.inlineComment, .docstring]]

/-- What is checked of a language and its outline. -/
structure Checked (o : Outline) (l : Language) : Prop where
  byLines : l.grammar.ByLines
  keepsLevels : Pass.setLevels.name ∉ o.removed
  keepsComments : ∀ k ∈ l.commentKinds, k.pass.name ∉ o.removed
  order : l.kind = .source → l.commentKinds ∈ commentOrders
  inline : l.kind = .source → l.grammar.inline.any InlineComment.readsDivider = true

instance (o : Outline) (l : Language) : Decidable (Checked o l) :=
  decidable_of_iff
    (l.grammar.ByLines ∧ Pass.setLevels.name ∉ o.removed ∧
      (∀ k ∈ l.commentKinds, k.pass.name ∉ o.removed) ∧
      (l.kind = .source → l.commentKinds ∈ commentOrders) ∧
      (l.kind = .source → l.grammar.inline.any InlineComment.readsDivider = true))
    ⟨fun ⟨hlines, hlevels, hkept, horder, hinline⟩ => ⟨hlines, hlevels, hkept, horder, hinline⟩,
      fun ⟨hlines, hlevels, hkept, horder, hinline⟩ => ⟨hlines, hlevels, hkept, horder, hinline⟩⟩

theorem check_outlines :
    (outlines.all fun o => o.build.toOption.any fun l => decide (Checked o l)) = true := by
  decide +kernel

theorem exists_build {o : Outline} (h : o ∈ outlines) : ∃ l, o.build = .ok l ∧ Checked o l := by
  have hchecked := List.all_eq_true.1 check_outlines o h
  cases hbuild : o.build with
  | error e => simp [hbuild, Except.toOption] at hchecked
  | ok l => exact ⟨l, rfl, by simpa [hbuild, Except.toOption] using hchecked⟩

theorem exists_languages : ∃ ls, languages = .ok ls :=
  exists_mapM fun _ ho => (exists_build ho).imp fun _ hl => hl.1

theorem exists_isSource {o : Outline} (h : o ∈ outlines) (hkind : o.kind = .source) :
    ∃ l, o.build = .ok l ∧ IsSource l := by
  obtain ⟨l, hbuild, _⟩ := exists_build h
  obtain ⟨ls, hls⟩ := exists_languages
  exact ⟨l, hbuild, ⟨ls, hls, mem_of_mapM hls h hbuild⟩, (Outline.kind_of_build hbuild).trans hkind⟩

namespace IsSource

variable {l : Language} (h : IsSource l)

include h

theorem exists_checked : ∃ o, o.build = .ok l ∧ Checked o l := by
  obtain ⟨o, ho, hbuild⟩ := h.exists_outline
  obtain ⟨built, hbuilt, hchecked⟩ := exists_build ho
  rw [hbuild] at hbuilt
  cases hbuilt
  exact ⟨o, hbuild, hchecked⟩

theorem byLines : l.grammar.ByLines := by
  obtain ⟨o, _, hchecked⟩ := h.exists_checked
  exact hchecked.byLines

theorem exists_staged :
    ∃ removed, l.Staged removed ∧ ∀ k ∈ l.commentKinds, k.pass.name ∉ removed := by
  obtain ⟨o, hbuild, hchecked⟩ := h.exists_checked
  have hkind : o.kind = .source := (Outline.kind_of_build hbuild).symm.trans h.kind_eq
  have hpasses := Outline.passes_of_build hbuild hkind
  exact ⟨o.removed, ⟨h.kind_eq, hpasses, hchecked.keepsLevels⟩, hchecked.keepsComments⟩

theorem exists_inline : ∃ c, l.grammar.inline = some c ∧ c.readsDivider = true := by
  obtain ⟨o, _, hchecked⟩ := h.exists_checked
  exact (Option.any_eq_true _ _).1 (hchecked.inline h.kind_eq)

theorem commentKinds_mem : l.commentKinds ∈ commentOrders := by
  obtain ⟨o, _, hchecked⟩ := h.exists_checked
  exact hchecked.order h.kind_eq

theorem closed_uncomment (t : Text) : Section.Closed (l.uncomment t) := by
  obtain ⟨removed, hstaged, _⟩ := h.exists_staged
  exact hstaged.closed_uncomment h.byLines t

theorem keepsLines_segment (t : Text) : Section.KeepsLines (l.uncomment t) (l.segment t) := by
  obtain ⟨removed, hstaged, _⟩ := h.exists_staged
  exact hstaged.keepsLines_segment h.byLines t

theorem uncomment_eq (t : Text) :
    l.uncomment t = Pipeline.run ⟨l.commentKinds.map (·.pass)⟩ l.grammar [.ofCode t] := by
  obtain ⟨removed, hstaged, hkept⟩ := h.exists_staged
  have hfilter : (CapabilityKind.commentPasses l.capabilities).filter (·.name ∉ removed) =
      l.commentKinds.map (·.pass) := by
    refine List.filter_eq_self.2 fun p hp => ?_
    obtain ⟨k, hk, rfl⟩ := List.mem_map.1 hp
    exact decide_eq_true (hkept k hk)
  rw [Language.uncomment, hstaged.commentStage_eq, hfilter]

/-- Paired comments are looked for in what line comments leave. -/
theorem uncomment_eq_extract (horder : l.commentKinds = [.inlineComment, .blockComment])
    {c : InlineComment} (hinline : l.grammar.inline = some c) (t : Text) :
    l.uncomment t = BlockComment.extract l.grammar.blocks (c.extract [.ofCode t]) := by
  rw [h.uncomment_eq, horder]
  change BlockComment.extract l.grammar.blocks (Pass.extractInline.run l.grammar _) = _
  simp only [Pass.extractInline, hinline]

end IsSource

/-- No line of code is lost, doubled, moved, split or joined once the comments are taken out. -/
theorem inkedRows_segment {l : Language} (h : IsSource l) (t : Text) :
    Text.inkedRows (Section.codeOf (l.segment t)) =
      Text.inkedRows (Section.codeOf (l.uncomment t)) := by
  have hkeeps := h.keepsLines_segment t
  have hlines := hkeeps.lines
  rw [Section.codeLines_eq hkeeps.closed, Section.codeLines_eq (h.closed_uncomment t)] at hlines
  rw [Text.inkedRows_eq, Text.inkedRows_eq, hlines]

theorem inkedRows_segment_python :
    ∃ l, python.build = .ok l ∧ IsSource l ∧
      Text.inkedRows (Section.codeOf (l.segment "# one\nx = 1\n\n  y")) =
        Text.inkedRows (Section.codeOf (l.uncomment "# one\nx = 1\n\n  y")) := by
  obtain ⟨l, hbuild, hl⟩ := exists_isSource (o := python) (by simp [outlines]) rfl
  exact ⟨l, hbuild, hl, inkedRows_segment hl _⟩

end Builtin

end Marginalia
