import Marginalia.Proofs.Comment.Break
import Marginalia.Proofs.Scope.Break
import Marginalia.Proofs.Section.Lacks

/-! # Segmentation of both forms of a text

If nothing in a grammar depends on how a line break is written, each pass does the same to both
forms of a list of sections, and so does a whole segmentation (`segment_crlf`). Without carriage
returns in the text, dropping them leads back (`dropReturns_segment`).
-/

namespace Marginalia

open Section (Closed Lacks)
open Text (shift)

namespace LinkRule

/-- The pattern reads breaks of either form alike, and anchors are what a group without line breaks
captures. -/
@[mk_iff]
structure Unbroken (rule : LinkRule) : Prop where
  pattern : rule.pattern.pattern.Unbroken
  groups : rule.pattern.pattern.groupsAvoid '\n' = true
  template_eq : rule.template = nameTemplate
  names : ∀ entry ∈ rule.pattern.names, entry.2 ≠ 0

instance (rule : LinkRule) : Decidable rule.Unbroken := decidable_of_iff' _ (unbroken_iff rule)

theorem expand_nameTemplate (re : Regex) (t : Text) (m : Match) :
    re.expand t m nameTemplate =
      (((re.names.find? (·.1 == "name".toList)).map (·.2)).bind fun n => m.group? t n).getD [] := by
  have hexpand : re.expand t m nameTemplate = re.resolve t m "name" ++ [] := rfl
  rw [hexpand, List.append_nil]
  rfl

theorem expand_crlf {rule : LinkRule} (hrule : rule.Unbroken) {code : Text} {m : Match}
    (h : rule.pattern.find code = some m) :
    rule.pattern.expand (Text.crlf code) (m.crlf code) rule.template =
      rule.pattern.expand code m rule.template := by
  rw [hrule.template_eq, expand_nameTemplate, expand_nameTemplate]
  cases hname : rule.pattern.names.find? (·.1 == "name".toList) with
  | none => rfl
  | some entry =>
    have hn := hrule.names entry (List.mem_of_find?_eq_some hname)
    simp only [Option.map_some, Option.bind_some, Regex.group?_crlf h]
    cases hg : m.group? code entry.2 with
    | none => rfl
    | some g =>
      have hnewline := Regex.not_mem_group hrule.pattern.loopsRead hrule.groups h hn hg
      exact Text.crlf_eq_self hnewline

theorem anchor?_crlf {rule : LinkRule} (hrule : rule.Unbroken) (code : Text) :
    rule.anchor? (Text.crlf code) = rule.anchor? code := by
  have hfind : rule.pattern.find (Text.crlf code) =
      (rule.pattern.find code).map (.crlf code) := by
    have hfound := Regex.findAt_crlf hrule.pattern (Text.boundary_zero code)
    rwa [Text.shift_zero] at hfound
  rw [anchor?, anchor?, hfind]
  cases hm : rule.pattern.find code with
  | none => rfl
  | some m =>
    simp only [Option.map_some, Option.bind_eq_bind, Option.bind_some, expand_crlf hrule hm]

theorem findSome?_anchor_crlf {rules : List LinkRule} (hrules : ∀ rule ∈ rules, rule.Unbroken)
    (code : Text) :
    (rules.findSome? fun rule => rule.anchor? (Text.crlf code)) =
      rules.findSome? fun rule => rule.anchor? code := by
  induction rules with
  | nil => rfl
  | cons rule rules ih =>
    rw [List.forall_mem_cons] at hrules
    rw [List.findSome?_cons, List.findSome?_cons, anchor?_crlf hrules.1, ih hrules.2]

theorem annotate_crlf {rules : List LinkRule} (hrules : ∀ rule ∈ rules, rule.Unbroken)
    (head : Text) (sections : List Section) :
    annotate rules head (sections.map .crlf) = (annotate rules head sections).map .crlf := by
  rw [annotate, annotate, List.map_map, List.map_map]
  refine List.map_congr_left fun s _ => ?_
  have hanchor : (rules.findSome? fun rule => rule.anchor? s.crlf.code) =
      rules.findSome? fun rule => rule.anchor? s.code := findSome?_anchor_crlf hrules s.code
  rw [Function.comp_apply, Function.comp_apply, hanchor]
  split <;> rfl

end LinkRule

/-- Nothing depends on how line breaks are written. -/
@[mk_iff]
structure Grammar.Unbroken (g : Grammar) : Prop where
  inline : ∀ comment ∈ g.inline, comment.Unbroken
  blocks : ∀ kind ∈ g.blocks, kind.Unbroken
  docstring : g.docstring = false
  decoration : g.decoration = false
  scopes : ∀ rule ∈ g.scopeRules, rule.Unbroken
  links : ∀ rule ∈ g.linkRules, rule.Unbroken

instance (g : Grammar) : Decidable g.Unbroken := decidable_of_iff' _ (Grammar.unbroken_iff g)

variable {g : Grammar} {sections : List Section}

theorem Rearrangement.run_crlf (r : Rearrangement) (hg : g.Unbroken) (h : Closed sections) :
    r.pass.run g (sections.map .crlf) = (r.pass.run g sections).map .crlf := by
  cases r with
  | setLevels => exact Layout.levelsFrom_crlf 0 sections
  | alignDocs => exact Layout.alignDocs_crlf sections
  | splitByIndent =>
    exact Scope.splitAll_crlf (Scope.cutAtDedent_crlf hg.scopes)
      (Scope.shrinks_cutAtDedent g.scopeRules) sections
  | splitByKeyword =>
    exact Scope.splitAll_crlf (Scope.cutAtScope_crlf hg.scopes)
      (Scope.shrinks_cutAtScope g.scopeRules) sections
  | mergeUp => exact Layout.mergeUp_crlf g.scopeRules sections
  | mergeDown => exact Layout.mergeDown_crlf sections
  | attachDecorators =>
    simp only [pass, Pass.attachDecorators]
    split
    · rfl
    · exact Decorator.attachAll_crlf _ sections
  | absorb => exact Layout.absorb_crlf h
  | addLinks => exact LinkRule.annotate_crlf hg.links g.anchorHead sections
  | keepFilled => exact Section.keepFilled_crlf sections

theorem Extraction.run_crlf (e : Extraction) (hg : g.Unbroken) (sections : List Section) :
    e.pass.run g (sections.map .crlf) = (e.pass.run g sections).map .crlf := by
  cases e with
  | inline =>
    simp only [pass, Pass.extractInline]
    split
    · rfl
    · rename_i comment hcomment
      exact InlineComment.extract_crlf (hg.inline comment hcomment) sections
  | blocks => exact BlockComment.extract_crlf hg.blocks sections
  | docstrings => simp [pass, Pass.extractDocstrings, hg.docstring]

/-- The capability that brings the pass along. -/
def Extraction.kind : Extraction → CapabilityKind
  | inline => .inlineComment
  | blocks => .blockComment
  | docstrings => .docstring

theorem Extraction.closed_run (e : Extraction) (hg : g.ByLines) (h : Closed sections) :
    Closed (e.pass.run g sections) := by
  have hplace : e.kind.placement = .before Pass.setLevels.name := by cases e <;> rfl
  have hpass : e.kind.pass = e.pass := by cases e <;> rfl
  have hclosed := CapabilityKind.closed_pass hplace hg h
  rwa [hpass] at hclosed

namespace Pass

/-- Every pass of a language without comment decoration takes comments out, rearranges sections or
leaves them as they are. -/
inductive Known (g : Grammar) (p : Pass) : Prop
  | extracts (e : Extraction) (h : p = e.pass)
  | rearranges (r : Rearrangement) (h : p = r.pass)
  | rests (h : ∀ sections, p.run g sections = sections)

variable {p : Pass}

theorem known_of_kind (k : CapabilityKind) (hg : g.decoration = false) : Known g k.pass := by
  cases k with
  | inlineComment => exact .extracts .inline rfl
  | blockComment => exact .extracts .blocks rfl
  | docstring => exact .extracts .docstrings rfl
  | commentDecoration =>
    exact .rests fun sections => by simp [CapabilityKind.pass, stripDecoration, hg]
  | indentBlock => exact .rearranges .splitByIndent rfl
  | braceBlock => exact .rearranges .splitByKeyword rfl
  | decoratorMerge => exact .rearranges .attachDecorators rfl
  | keywordLink => exact .rearranges .addLinks rfl

theorem known_of_mem_assembled {kinds : List CapabilityKind} (hg : g.decoration = false)
    (hp : p ∈ CapabilityKind.assembled kinds) : Known g p := by
  rcases List.mem_append.1 hp with hp | hp
  · obtain ⟨k, _, _, rfl⟩ := CapabilityKind.exists_of_mem_commentPasses hp
    exact known_of_kind k hg
  · rcases CapabilityKind.exists_of_mem_layoutPasses hp with ⟨r, rfl⟩ | ⟨k, _, rfl⟩
    · exact .rearranges r rfl
    · exact known_of_kind k hg

theorem Known.closed_run (hp : p.Known g) (hg : g.ByLines) (h : Closed sections) :
    Closed (p.run g sections) := by
  cases hp with
  | extracts e he =>
    rw [he]
    exact e.closed_run hg h
  | rearranges r hr =>
    rw [hr]
    exact (r.keepsLines_pass hg h).closed
  | rests hrests => rwa [hrests]

theorem Known.run_crlf (hp : p.Known g) (hg : g.Unbroken) (h : Closed sections) :
    p.run g (sections.map .crlf) = (p.run g sections).map .crlf := by
  cases hp with
  | extracts e he =>
    rw [he]
    exact e.run_crlf hg sections
  | rearranges r hr =>
    rw [hr]
    exact r.run_crlf hg h
  | rests hrests => rw [hrests, hrests]

theorem Known.lacks_run {d : Char} (hp : p.Known g) (hd : d ≠ '\n')
    (h : ∀ s ∈ sections, s.Lacks d) : ∀ s ∈ p.run g sections, s.Lacks d := by
  cases hp with
  | extracts e he =>
    rw [he]
    exact e.lacks_run g h
  | rearranges r hr =>
    rw [hr]
    exact r.lacks_run hd g h
  | rests hrests => rwa [hrests]

end Pass

namespace Pipeline

variable {passes : List Pass} (hpasses : ∀ p ∈ passes, p.Known g)

include hpasses

theorem run_crlf (hlines : g.ByLines) (hg : g.Unbroken) (h : Closed sections) :
    run ⟨passes⟩ g (sections.map .crlf) = (run ⟨passes⟩ g sections).map .crlf := by
  induction passes generalizing sections with
  | nil => rfl
  | cons p passes ih =>
    rw [List.forall_mem_cons] at hpasses
    have hstep := hpasses.1.run_crlf hg h
    have hrest := ih hpasses.2 (hpasses.1.closed_run hlines h)
    rw [← hstep] at hrest
    exact hrest

theorem lacks_run {d : Char} (hd : d ≠ '\n') (h : ∀ s ∈ sections, s.Lacks d) :
    ∀ s ∈ run ⟨passes⟩ g sections, s.Lacks d := by
  induction passes generalizing sections with
  | nil => exact h
  | cons p passes ih =>
    rw [List.forall_mem_cons] at hpasses
    exact ih hpasses.2 (hpasses.1.lacks_run hd h)

end Pipeline

/-- The section without the carriage returns of its texts. -/
def Section.dropReturns (s : Section) : Section :=
  { s with docs := s.docs.filter (· ≠ '\r'), code := s.code.filter (· ≠ '\r') }

theorem Text.filter_crlf {t : Text} (h : '\r' ∉ t) : (crlf t).filter (· ≠ '\r') = t := by
  induction t with
  | nil => rfl
  | cons c t ih =>
    rw [List.mem_cons, not_or] at h
    by_cases hc : c = '\n'
    · subst hc
      rw [crlf_newline, List.filter_cons_of_neg (by decide), List.filter_cons_of_pos (by decide),
        ih h.2]
    · rw [crlf_cons hc, List.filter_cons_of_pos (by simpa using Ne.symm h.1), ih h.2]

theorem Section.dropReturns_crlf {s : Section} (h : s.Lacks '\r') : s.crlf.dropReturns = s := by
  simp only [dropReturns, crlf, Text.filter_crlf h.docs, Text.filter_crlf h.code]

namespace Language

variable {l : Language} {removed : List String} {t : Text}

theorem Staged.known (h : l.Staged removed) (hg : l.grammar.decoration = false) :
    ∀ p ∈ l.pipeline.passes, p.Known l.grammar := by
  intro p hp
  rw [h.passes_eq] at hp
  exact Pass.known_of_mem_assembled hg (List.mem_filter.1 hp).1

theorem Staged.segment_crlf (h : l.Staged removed) (hlines : l.grammar.ByLines)
    (hg : l.grammar.Unbroken) (t : Text) :
    l.segment (Text.crlf t) = (l.segment t).map .crlf := by
  have hrun : l.pipeline.run l.grammar ([Section.ofCode t].map .crlf) =
      (l.pipeline.run l.grammar [.ofCode t]).map .crlf :=
    Pipeline.run_crlf (h.known hg.decoration) hlines hg (List.pairwise_singleton _ _)
  have hstart : [Section.ofCode (Text.crlf t)] = [Section.ofCode t].map .crlf := rfl
  simp only [segment, h.kind_eq, hstart, hrun, Section.keepFilled_crlf]

theorem Staged.lacks_segment (h : l.Staged removed) (hg : l.grammar.decoration = false) {d : Char}
    (hd : d ≠ '\n') (ht : d ∉ t) : ∀ s ∈ l.segment t, s.Lacks d := by
  have hstart : ∀ s ∈ [Section.ofCode t], s.Lacks d := by
    intro s hs
    rw [List.mem_singleton.1 hs]
    exact ⟨ht, List.not_mem_nil⟩
  have hrun : ∀ s ∈ l.pipeline.run l.grammar [.ofCode t], s.Lacks d :=
    Pipeline.lacks_run (h.known hg) hd hstart
  intro s hs
  simp only [segment, h.kind_eq] at hs
  exact hrun s (List.mem_filter.1 hs).1

theorem Staged.dropReturns_segment (h : l.Staged removed) (hlines : l.grammar.ByLines)
    (hg : l.grammar.Unbroken) (ht : '\r' ∉ t) :
    (l.segment (Text.crlf t)).map .dropReturns = l.segment t := by
  have hlacks : ∀ s ∈ l.segment t, s.crlf.dropReturns = s := fun s hs =>
    Section.dropReturns_crlf (h.lacks_segment hg.decoration (by decide) ht s hs)
  rw [h.segment_crlf hlines hg, List.map_map]
  exact (List.map_congr_left hlacks).trans (List.map_id' _)

end Language

end Marginalia
