import Marginalia.Proofs.Builtin.DeclaredLines
import Marginalia.Proofs.Builtin.Source
import Marginalia.Proofs.Language.Labels
import Marginalia.Proofs.Scope.Decorated

/-! # Anchors of declarations

The label of a section stands for one of its lines, its anchor is read off its text from the
beginning. Both tell of the same declaration as long as the lines before it are ones that the links
pass over (`anchor?_iff_declares`). A decorator makes up one section with the declaration behind it,
whatever lines it has (`Anchoring.exists_segment_decorated`), but the links only pass over those of
one line.
-/

namespace Marginalia

theorem Text.head?_trim_cons {c : Char} (hc : isBlankChar c = false) (t : Text) :
    (trim (c :: t)).head? = some c := by
  have hstart : trimStart (c :: t) = c :: t := by
    rw [trimStart, List.dropWhile_cons, hc]
    rfl
  rw [trim, hstart, trimEnd]
  clear hstart
  induction t using List.reverseRecOn with
  | nil => simp [dropEndWhile, hc]
  | append_singleton t d ih =>
    rw [← List.cons_append, dropEndWhile_concat]
    split
    · exact ih
    · rfl

namespace Builtin

open Pattern (sequence)
open ScopeRule (matchRow)
open Text (bareLine lines)

def decoratorScope : Pattern :=
  sequence [.look .lineStart, .indent, .group 1 (.seq (.char '@') (.plus true (.set .word)))]

/-- A link for functions and one for classes, in this order. -/
def linksDeclarations : List LinkRule → Bool
  | [function, type] =>
    decide (function.Naming (preludeParts functionParts) .word) &&
      decide (type.Naming (preludeParts classParts) .word)
  | _ => false

/-- Scopes of declarations, and then that of decorators. -/
def scopesDecorators : List ScopeRule → Bool
  | [_, _, decorator] => decide (decorator.pattern.pattern = decoratorScope)
  | _ => false

/-! ## What the rules match -/

theorem anchor?_eq_some_iff {rule : LinkRule} {ps : List Pattern} {opens : Text → Prop}
    (h : rule.Naming (preludeParts ps) .word) (hreads : ∀ x, (sequence ps).Reads x ↔ opens x)
    (hopens : ∀ x, opens x → Opens x) (code name : Text) :
    rule.anchor? code = some name ↔ Declares opens code name := by
  have hprelude : (sequence (preludeParts ps)).Reads = Prelude opens :=
    funext fun _ => propext (reads_preludeParts hreads)
  have hanchor := h.anchor?_eq_some_iff (t := code)
  rw [hprelude] at hanchor
  exact hanchor (fun a b ha hb => name_unique (.imp hopens ha) (.imp hopens hb)) name

theorem findSome?_anchor?_iff {rules : List LinkRule} (h : linksDeclarations rules = true)
    (code name : Text) :
    (rules.findSome? fun rule => rule.anchor? code) = some name ↔ Declares Opens code name := by
  unfold linksDeclarations at h
  split at h
  · rename_i function type
    rw [Bool.and_eq_true, decide_eq_true_iff, decide_eq_true_iff] at h
    have hfunction := anchor?_eq_some_iff h.1 (fun _ => reads_functionParts) (fun _ => .inl) code
    have htype := anchor?_eq_some_iff h.2 (fun _ => reads_classParts) (fun _ => .inr) code
    rw [declares_iff, ← hfunction, ← htype, List.findSome?_cons, List.findSome?_singleton]
    cases hfound : function.anchor? code with
    | none => simp
    | some found =>
      refine ⟨.inl, fun hname => hname.elim id fun hname => ?_⟩
      -- Where both rules give an anchor, it is the same.
      have hfound : Declares Opens code found := declares_iff.2 (.inl ((hfunction found).1 hfound))
      exact congrArg some (name_unique hfound (declares_iff.2 (.inr ((htype name).1 hname))))
  · cases h

/-- The label of a decorator starts with its mark. -/
theorem head?_label {rule : ScopeRule} (h : rule.pattern.pattern = decoratorScope) {row : Text}
    (hrow : '\n' ∉ row) {m : ScopeMatch} (hm : rule.findAt row 0 = some m) :
    m.label.head? = some '@' := by
  have hbound : rule.pattern.pattern.LineBound := by
    rw [h]
    decide
  rw [ScopeRule.findAt_row hbound hrow, h] at hm
  obtain ⟨_, hmatch, rfl⟩ := Option.map_eq_some_iff.1 hm
  obtain ⟨u, hu, rfl⟩ := Option.map_eq_some_iff.1 hmatch
  have hparts : decoratorScope = Pattern.sequence ([.look .lineStart, .indent] ++
      [.group 1 (.seq (.char '@') (.plus true (.set .word)))]) := rfl
  rw [hparts, Pattern.runs_sequence_append] at hu
  obtain ⟨v, hv, hmem⟩ := List.mem_flatMap.1 (List.mem_of_mem_head? hu)
  obtain ⟨before, _, hbefore⟩ := Pattern.exists_of_mem_runs hv
  obtain ⟨_, ⟨_, word, rfl, hmark, _⟩, hover, hcaptures⟩ :=
    Pattern.exists_of_mem_runs_group rfl hmem
  obtain rfl := Pattern.reads_char.1 hmark
  have hgroup := Pattern.group?_of_over hbefore hover hcaptures
  have hlabel : ((Match.ofThread 0 u).group? row 1).getD ((Match.ofThread 0 u).text row) =
      '@' :: word := by
    rw [hgroup]
    rfl
  exact (congrArg (fun t => (Text.trim t).head?) hlabel).trans (Text.head?_trim_cons rfl word)

theorem isSome_matchRow {rules : List ScopeRule} (h : scopesDecorators rules = true) {row : Text}
    (hrow : '\n' ∉ row) {label : Text} (hlabel : label.head? ≠ some '@')
    (hm : (matchRow rules row).map (·.label) = some label) :
    (matchRow (rules.take 2) row).isSome = true := by
  unfold scopesDecorators at h
  split at h
  · rename_i function type decorator
    rw [decide_eq_true_iff] at h
    obtain ⟨m, hfound, rfl⟩ := Option.map_eq_some_iff.1 hm
    simp only [matchRow, List.take_succ_cons, List.take_zero, List.findSome?_cons,
      List.findSome?_nil] at hfound ⊢
    cases hfunction : function.findAt row 0 with
    | some _ => rfl
    | none =>
      cases htype : type.findAt row 0 with
      | some _ => rfl
      | none =>
        -- Only the decorator is left, and its label is another one.
        rw [hfunction, htype] at hfound
        have hdecorator : decorator.findAt row 0 = some m := by
          cases hthird : decorator.findAt row 0 <;> rw [hthird] at hfound <;> exact hfound
        exact absurd (head?_label h hrow hdecorator) hlabel
  · cases h

/-! ## The language -/

theorem check_python :
    (python.build.toOption.any fun l =>
      decide (l.capabilities =
        [.indentBlock, .blockComment, .inlineComment, .decoratorMerge, .keywordLink]) &&
      decide (l.grammar.anchorHead = []) && linksDeclarations l.grammar.linkRules &&
      scopesDecorators l.grammar.scopeRules &&
      (l.grammar.scopeRules.all fun rule => decide rule.pattern.pattern.LineBound) &&
      decide (l.grammar.decoratorMarker = some ['@'])) = true := by
  decide +kernel

def splitSteps : List Rearrangement := [.setLevels, .alignDocs, .setLevels, .splitByIndent]

def mergeSteps : List Rearrangement :=
  [.mergeUp, .setLevels, .mergeDown, .setLevels, .attachDecorators, .absorb]

/-- The sections before they get their links. -/
def unlinked (l : Language) (t : Text) : List Section :=
  Pipeline.run ⟨(splitSteps ++ mergeSteps).map (·.pass)⟩ l.grammar (l.uncomment t)

/-- What the anchors of the language depend on. -/
structure Anchoring (l : Language) : Prop where
  source : IsSource l
  capabilities_eq :
    l.capabilities = [.indentBlock, .blockComment, .inlineComment, .decoratorMerge, .keywordLink]
  anchorHead_eq : l.grammar.anchorHead = []
  links : linksDeclarations l.grammar.linkRules = true
  scopes : scopesDecorators l.grammar.scopeRules = true
  lineBound : ∀ rule ∈ l.grammar.scopeRules, rule.pattern.pattern.LineBound
  marker_eq : l.grammar.decoratorMarker = some ['@']
  staged : l.Staged []

theorem exists_anchoring : ∃ l, python.build = .ok l ∧ Anchoring l := by
  obtain ⟨l, hbuild, hchecked⟩ := exists_of_any_toOption check_python
  simp only [Bool.and_eq_true, List.all_eq_true, decide_eq_true_eq] at hchecked
  obtain ⟨⟨⟨⟨⟨hkinds, hhead⟩, hlinks⟩, hscopes⟩, hbound⟩, hmarker⟩ := hchecked
  obtain ⟨_, hsame, hsource⟩ := exists_isSource (o := python) (by simp [outlines]) rfl
  cases hbuild.symm.trans hsame
  have hstaged : l.Staged [] :=
    ⟨hsource.kind_eq, Outline.passes_of_build hbuild rfl, List.not_mem_nil⟩
  exact ⟨l, hbuild, hsource, hkinds, hhead, hlinks, hscopes, hbound, hmarker, hstaged⟩

namespace Anchoring

variable {l : Language} (h : Anchoring l) (t : Text)

include h

theorem lineLocal : ∀ rule ∈ l.grammar.scopeRules, rule.LineLocal :=
  fun rule hrule => ScopeRule.lineLocal_of_lineBound (h.lineBound rule hrule)

theorem commentKinds_eq : l.commentKinds = [.blockComment, .inlineComment] := by
  rw [Language.commentKinds, h.capabilities_eq]
  rfl

theorem raw_uncomment : ∀ s ∈ l.uncomment t, s.Raw := by
  rw [h.source.uncomment_eq, h.commentKinds_eq]
  refine Extraction.raw_run .inline l.grammar (Extraction.raw_run .blocks l.grammar ?_)
  intro s hs
  rw [List.mem_singleton.1 hs]
  exact ⟨rfl, rfl⟩

theorem segment_eq :
    l.segment t = Section.keepFilled (LinkRule.annotate l.grammar.linkRules [] (unlinked l t)) := by
  have hpasses : (CapabilityKind.layoutPasses l.capabilities).filter (·.name ∉ ([] : List String)) =
      (splitSteps ++ mergeSteps).map (·.pass) ++ [.addLinks] := by
    rw [h.capabilities_eq]
    rfl
  rw [Language.segment, h.source.kind_eq]
  simp only [h.staged.run_eq, hpasses, Pipeline.run_append]
  rw [← h.anchorHead_eq]
  rfl

theorem anchor?_iff {s : Section} (hs : s ∈ l.segment t) (name : Text) :
    s.anchor? = some name ↔ Declares Opens s.code name := by
  rw [h.segment_eq] at hs
  have hunlinked : ∀ p ∈ unlinked l t, p.annotations = ∅ :=
    Rearrangement.annotations_steps (by decide) fun p hp => (h.raw_uncomment t p hp).annotations_eq
  rw [LinkRule.anchor?_of_mem_annotate hunlinked s (List.mem_filter.1 hs).1]
  simp only [List.nil_append, Option.map_id']
  exact findSome?_anchor?_iff h.links s.code name

/-- A text without comments stays as it is. -/
theorem uncomment_eq_self {t : Text}
    (hblocks : ∀ b ∈ l.grammar.blocks, b.opening.findAt t 0 = none)
    (hinline : ∀ c ∈ l.grammar.inline, c.Uncommented t) : l.uncomment t = [.ofCode t] := by
  have hplain : BlockComment.extract l.grammar.blocks [.ofCode t] = [.ofCode t] :=
    BlockComment.extract_singleton (BlockComment.spans_eq_nil hblocks)
  obtain ⟨c, hc, _⟩ := h.source.exists_inline
  rw [h.source.uncomment_eq, h.commentKinds_eq]
  change Pass.extractInline.run l.grammar (BlockComment.extract l.grammar.blocks _) = _
  rw [hplain]
  simp only [Pass.extractInline, hc]
  exact (hinline c hc).extract_singleton

/-- A decorator and the declaration behind it make up one section, with the label of the
declaration. -/
theorem exists_segment_decorated {mark label t first line : Text} {args body : List Text}
    (hplain : l.uncomment t = [.ofCode t])
    (ht : Scope.Decorated l.grammar.scopeRules mark label t first args line body)
    (hmark : Text.holds ['@'] mark = true) :
    ∃ s, l.segment t = [s] ∧ s.scope = some label ∧ s.code = t := by
  have hcode : (Section.ofCode t).hasCode = true :=
    (Scope.begins_of_labelOf h.lineLocal ht.lines_eq ht.marked).hasCode
  have hlevels : Layout.setLevels (Layout.alignDocs (Layout.setLevels [.ofCode t])) =
      [{ code := t, level := Text.indentWidth t }] := by
    rw [Layout.setLevels_singleton hcode]
    exact Layout.setLevels_singleton hcode
  obtain ⟨level, hmerged⟩ := ht.exists_merged h.lineLocal hmark (Text.indentWidth t)
  have hunlinked : unlinked l t = [{ code := t, level, scope := some label }] := by
    rw [unlinked, hplain, ← hmerged, ← hlevels]
    change Layout.absorb (Pass.attachDecorators.run l.grammar _) = _
    simp only [Pass.attachDecorators, h.marker_eq]
    rfl
  obtain ⟨annotations, hannotate⟩ :=
    LinkRule.exists_annotate l.grammar.linkRules [] (unlinked l t)
  rw [h.segment_eq, hannotate, hunlinked, List.map_singleton]
  refine ⟨_, List.filter_cons_of_pos ?_, rfl, rfl⟩
  exact Bool.or_eq_true_iff.2 (.inl hcode)

theorem labelled_segment : ∀ s ∈ l.segment t, s.Labelled l.grammar.scopeRules := by
  have hunlinked : ∀ p ∈ unlinked l t, p.Labelled l.grammar.scopeRules :=
    Rearrangement.labelled_layout (by decide) (by decide) h.source.byLines h.lineLocal
      (h.source.closed_uncomment t) fun p hp => (h.raw_uncomment t p hp).scope_eq
  obtain ⟨annotations, hannotate⟩ :=
    LinkRule.exists_annotate l.grammar.linkRules [] (unlinked l t)
  rw [h.segment_eq, hannotate]
  intro s hs
  obtain ⟨p, hp, rfl⟩ := List.mem_map.1 (List.mem_filter.1 hs).1
  exact hunlinked p hp

end Anchoring

/-- Of the lines of the code, this is the first one that the rules for declarations match. -/
structure FirstDeclaration (rules : List ScopeRule) (code : Text) (before : List Text)
    (line : Text) (after : List Text) : Prop where
  lines_eq : lines code = before ++ line :: after
  unmatched : ∀ earlier ∈ before, matchRow (rules.take 2) (bareLine earlier) = none
  matched : (matchRow (rules.take 2) (bareLine line)).isSome = true

theorem exists_firstDeclaration {rules : List ScopeRule} (hrules : scopesDecorators rules = true)
    {s : Section} (hs : s.Labelled rules) {label : Text} (hscope : s.scope = some label)
    (hlabel : label.head? ≠ some '@') :
    ∃ before line after, FirstDeclaration rules s.code before line after := by
  obtain ⟨labelled, hmem, hlabelled⟩ := hs label hscope
  obtain ⟨_, _, hrow⟩ := Text.exists_bareLine hmem
  have hmatched := isSome_matchRow hrules hrow hlabel hlabelled
  cases hfirst : (lines s.code).find? fun line =>
      (matchRow (rules.take 2) (bareLine line)).isSome with
  | none => exact absurd hmatched (List.find?_eq_none.1 hfirst labelled hmem)
  | some line =>
    obtain ⟨hline, before, after, hlines, hbefore⟩ := List.find?_eq_some_iff_append.1 hfirst
    refine ⟨before, line, after, hlines, fun earlier hearlier => ?_, hline⟩
    simpa using hbefore earlier hearlier

/-- The anchor of a section is the name that its text declares behind decorators of one line each. A
section with the label of a declaration has a first line that declares, and the name on this line is
the anchor if nothing but blank lines, and then such decorators, stand before it. Otherwise it can
only be the anchor where an earlier line has the keywords of a declaration that got no label. -/
theorem anchor?_iff_declares (t : Text) :
    ∃ l, python.build = .ok l ∧ ∀ s ∈ l.segment t,
      (∀ name, s.anchor? = some name ↔ Declares Opens s.code name) ∧
      (s.scope = some ("def" : Text) ∨ s.scope = some ("class" : Text) →
        ∃ before line after, FirstDeclaration l.grammar.scopeRules s.code before line after ∧
          ∀ name, LineDeclares line name →
            (Leads before → s.anchor? = some name) ∧
            (s.anchor? = some name → Leads before ∨ ∃ earlier ∈ before, LineOpens earlier)) := by
  obtain ⟨l, hbuild, h⟩ := exists_anchoring
  refine ⟨l, hbuild, fun s hs => ⟨h.anchor?_iff t hs, fun hscope => ?_⟩⟩
  have hfirst : ∃ before line after,
      FirstDeclaration l.grammar.scopeRules s.code before line after := by
    rcases hscope with hscope | hscope
    · exact exists_firstDeclaration h.scopes (h.labelled_segment t s hs) hscope (by decide)
    · exact exists_firstDeclaration h.scopes (h.labelled_segment t s hs) hscope (by decide)
  obtain ⟨before, line, after, hfirst⟩ := hfirst
  refine ⟨before, line, after, hfirst, fun name hname => ⟨fun hleads => ?_, fun hanchor => ?_⟩⟩
  · exact (h.anchor?_iff t hs name).2 (declares_of_lines hfirst.lines_eq hleads hname)
  · rw [or_iff_not_imp_right]
    intro hbefore
    refine leads_of_declares hfirst.lines_eq ((h.anchor?_iff t hs name).1 hanchor) ?_
    exact fun earlier hearlier hopens => hbefore ⟨earlier, hearlier, hopens⟩

/-- A decorator with its arguments on lines of their own. -/
def bracketed : Text := "@a(\n    1,\n)\ndef f():\n    pass\n"

def bracketLines : List Text := ["@a(\n", "    1,\n", ")\n"]

theorem lines_bracketed :
    lines bracketed = bracketLines ++ "def f():\n".toList :: ["    pass\n".toList] := by
  decide +kernel

theorem check_bracketed :
    (python.build.toOption.any fun l =>
      (l.grammar.blocks.all fun b =>
        b.opening.pattern.loopsRead && (b.opening.pattern.leftmost 0 none bracketed).isNone) &&
      (l.grammar.inline.all fun c => (lines bracketed).all fun line => (c.body? line).isNone) &&
      decide ((lines bracketed).map (fun line =>
          Scope.readLabel l.grammar.scopeRules (bareLine line)) =
        [some ['@', 'a'], none, none, some ['d', 'e', 'f'], none]) &&
      decide ((lines bracketed).map (fun line =>
          Scope.readLabel (l.grammar.scopeRules.take 2) (bareLine line)) =
        [none, none, none, some ['d', 'e', 'f'], none])) = true := by
  decide +kernel

theorem exists_bracketed :
    ∃ l, python.build = .ok l ∧ Anchoring l ∧ l.uncomment bracketed = [.ofCode bracketed] ∧
      Scope.Decorated l.grammar.scopeRules "@a" "def" bracketed "@a(\n" ["    1,\n", ")\n"]
        "def f():\n" ["    pass\n"] ∧
      FirstDeclaration l.grammar.scopeRules bracketed bracketLines "def f():\n" ["    pass\n"] := by
  obtain ⟨l, hbuild, h⟩ := exists_anchoring
  obtain ⟨_, hsame, hchecked⟩ := exists_of_any_toOption check_bracketed
  cases hbuild.symm.trans hsame
  simp only [Bool.and_eq_true, List.all_eq_true, decide_eq_true_eq, Option.all_eq_true,
    Option.isNone_iff_eq_none] at hchecked
  obtain ⟨⟨⟨hblocks, hinline⟩, hlabels⟩, hdeclared⟩ := hchecked
  have hplain : l.uncomment bracketed = [.ofCode bracketed] := by
    refine h.uncomment_eq_self (fun b hb => ?_) hinline
    exact (Regex.findFrom_eq_leftmost (hblocks b hb).1 _).trans (hblocks b hb).2
  have hbound : ∀ rule ∈ l.grammar.scopeRules.take 2, rule.pattern.pattern.LineBound :=
    fun rule hrule => h.lineBound rule (List.mem_of_mem_take hrule)
  rw [← Scope.map_labelOf_lines h.lineBound, lines_bracketed] at hlabels
  rw [← Scope.map_labelOf_lines hbound, lines_bracketed] at hdeclared
  simp only [bracketLines, List.cons_append, List.nil_append, List.map_cons, List.map_nil,
    List.cons.injEq, and_true] at hlabels hdeclared
  obtain ⟨hfirst, hargument, hclosing, hline, hbody⟩ := hlabels
  obtain ⟨hbefore, hbefore', hbefore'', hmatched, _⟩ := hdeclared
  refine ⟨l, hbuild, h, hplain, ⟨lines_bracketed, hfirst, ?_, hline, ?_, ?_, ?_⟩,
    ⟨lines_bracketed, ?_, ?_⟩⟩
  · exact List.forall_mem_cons.2 ⟨hargument, List.forall_mem_singleton.2 hclosing⟩
  · exact List.forall_mem_singleton.2 hbody
  · decide +kernel
  · decide +kernel
  · simp only [bracketLines, List.forall_mem_cons, ← Scope.labelOf_eq_none_iff]
    exact ⟨hbefore, hbefore', hbefore'', List.forall_mem_nil _⟩
  · rw [← Option.isSome_map]
    exact Option.isSome_of_eq_some hmatched

/-- Such a decorator is in one section with its declaration, but hides the name. -/
theorem anchor?_iff_declares_brackets :
    LineDeclares "def f():\n" "f" ∧ ∃ l s, python.build = .ok l ∧ l.segment bracketed = [s] ∧
      s.scope = some ("def" : Text) ∧ s.code = bracketed ∧
      FirstDeclaration l.grammar.scopeRules s.code bracketLines "def f():\n" ["    pass\n"] ∧
      s.anchor? = none := by
  have hgap : ∀ c ∈ [' '], Text.isBlankChar c = true := List.all_eq_true.1 rfl
  have hword : ∀ c ∈ "f".toList, CharSet.word.contains c = true := List.all_eq_true.1 rfl
  refine ⟨⟨"def ", "():\n", rfl, ⟨[], "def", [' '], rfl, List.forall_mem_nil _, .inl (.inl rfl), rfl,
    hgap⟩, by decide, hword, rfl⟩, ?_⟩
  obtain ⟨l, hbuild, h, hplain, hdecorated, hfirst⟩ := exists_bracketed
  obtain ⟨s, hsegment, hscope, hcode⟩ := h.exists_segment_decorated hplain hdecorated (by decide)
  refine ⟨l, s, hbuild, hsegment, hscope, hcode, hcode ▸ hfirst, ?_⟩
  obtain ⟨_, hsame, hanchors⟩ := anchor?_iff_declares bracketed
  cases hbuild.symm.trans hsame
  have hs : s ∈ l.segment bracketed := hsegment ▸ List.mem_singleton_self s
  refine Option.eq_none_iff_forall_ne_some.2 fun name hanchor => ?_
  have hopens : ∀ earlier ∈ bracketLines, ¬ LineOpens earlier := by
    have hheads : ∀ earlier ∈ bracketLines,
        (earlier.dropWhile Text.isBlankChar).head? ∉ [some 'd', some 'a', some 'c'] := by
      decide +kernel
    exact fun earlier hearlier hopens => hheads earlier hearlier hopens.head?_dropWhile
  have hleads : Leads bracketLines :=
    leads_of_declares (hcode ▸ lines_bracketed) (((hanchors s hs).1 name).1 hanchor) hopens
  have hclosing : ")\n".toList ∈ bracketLines := by simp [bracketLines]
  rcases hleads.isBlank_or_isDecorator hclosing with hblank | hmarked
  · exact absurd hblank (by decide +kernel)
  · exact absurd hmarked (by decide +kernel)

end Builtin

end Marginalia
