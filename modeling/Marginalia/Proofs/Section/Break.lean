import Marginalia.Proofs.Section.WholeLines
import Marginalia.Proofs.Text.Break

/-! # Sections with line breaks of two characters

Spans are cut out, levels set, documentation aligned and neighbours merged alike in both forms of a
text. Only a merge that puts a newline of its own between two sections would tell them apart, and
where every section but the last ends a line there is none.
-/

namespace Marginalia

open Text (Boundary EndsLine shift)

namespace Section

/-- The section with every newline of its texts written as two characters. -/
def crlf (s : Section) : Section := { s with docs := Text.crlf s.docs, code := Text.crlf s.code }

@[simp] theorem hasCode_crlf (s : Section) : s.crlf.hasCode = s.hasCode := by
  rw [hasCode, crlf, Text.isBlank_crlf, hasCode]

@[simp] theorem hasDocs_crlf (s : Section) : s.crlf.hasDocs = s.hasDocs := by
  rw [hasDocs, crlf, Text.isBlank_crlf, hasDocs]

theorem keepFilled_crlf (sections : List Section) :
    keepFilled (sections.map crlf) = (keepFilled sections).map crlf := by
  have hfilled : isFilled ∘ crlf = isFilled := by
    funext s
    rw [Function.comp_apply, isFilled, hasCode_crlf, hasDocs_crlf, isFilled]
  rw [keepFilled, List.filter_map, hfilled, keepFilled]

theorem merge_crlf (s t : Section) : s.crlf.merge t.crlf = (s.merge t).crlf := by
  simp [merge, crlf]

theorem splitAt_crlf {s : Section} {pos : Nat} (h : Boundary s.code pos) :
    s.crlf.splitAt (shift s.code pos) = ((s.splitAt pos).1.crlf, (s.splitAt pos).2.crlf) := by
  simp only [splitAt, crlf, Text.upTo_shift h, Text.after_shift h, Text.crlf_nil]

end Section

namespace Span

/-- The span of the same comment once newlines are written as two characters. -/
def crlf (code : Text) (span : Span) : Span :=
  ⟨shift code span.start, shift code span.stop, Text.crlf span.docs⟩

/-- Where the gap before some spans ends. -/
def nextStart (code : Text) : List Span → Nat
  | [] => Text.size code
  | span :: _ => span.start

theorem nextStart_crlf (code : Text) (spans : List Span) :
    nextStart (Text.crlf code) (spans.map (crlf code)) = shift code (nextStart code spans) := by
  cases spans with
  | nil => exact (Text.shift_size code).symm
  | cons span rest => rfl

theorem Orderly.boundary_nextStart {code : Text} {pos : Nat} {spans : List Span}
    (h : Orderly code pos spans) : Boundary code (nextStart code spans) := by
  cases spans with
  | nil => exact Text.boundary_size code
  | cons span rest => exact h.2.1

theorem Orderly.le_nextStart {code : Text} {pos : Nat} {spans : List Span}
    (h : Orderly code pos spans) (hpos : pos ≤ Text.size code) : pos ≤ nextStart code spans := by
  cases spans with
  | nil => exact hpos
  | cons span rest => exact h.1

end Span

namespace Section

theorem spanSections_cons (level : Nat) (stripped : Bool) (code : Text) (span : Span)
    (rest : List Span) :
    spanSections level stripped code (span :: rest) =
      { docs := span.docs, level, stripped } ::
        (if span.stop < Span.nextStart code rest then
          [{ code := Text.slice span.stop (Span.nextStart code rest) code, level }]
        else []) ++ spanSections level stripped code rest := by
  cases rest <;> rfl

theorem spanSections_crlf {code : Text} {level pos : Nat} {stripped : Bool} {spans : List Span}
    (h : Span.Orderly code pos spans) :
    spanSections level stripped (Text.crlf code) (spans.map (Span.crlf code)) =
      (spanSections level stripped code spans).map crlf := by
  induction spans generalizing pos with
  | nil => rfl
  | cons span rest ih =>
    obtain ⟨_, _, _, hstop, hrest⟩ := h
    have hnext := hrest.boundary_nextStart
    have hle := hrest.le_nextStart hstop.le_size
    rw [List.map_cons, spanSections_cons, spanSections_cons, ih hrest, Span.nextStart_crlf,
      List.map_append, List.map_cons, Span.crlf, Text.slice_shift hstop hnext hle]
    simp only [Text.shift_lt_iff hstop hnext]
    split <;> rfl

theorem splitBySpans_crlf {s : Section} {spans : List Span} {stripped : Bool}
    (h : Span.Orderly s.code 0 spans) :
    s.crlf.splitBySpans (spans.map (Span.crlf s.code)) stripped =
      (s.splitBySpans spans stripped).map crlf := by
  cases spans with
  | nil => rfl
  | cons span rest =>
    have hparts : spanSections s.level stripped (Text.crlf s.code)
        (Span.crlf s.code span :: rest.map (Span.crlf s.code)) =
          (spanSections s.level stripped s.code (span :: rest)).map crlf := spanSections_crlf h
    have hfirst := Text.upTo_shift h.2.1
    simp only [splitBySpans, List.map_cons]
    rw [← hparts]
    simp only [crlf, Span.crlf, hfirst]

theorem flatMap_splitBySpans_crlf {find : Text → List Span} {stripped : Bool}
    (hfind : ∀ code, find (Text.crlf code) = (find code).map (Span.crlf code))
    (horderly : ∀ code, Span.Orderly code 0 (find code)) (sections : List Section) :
    ((sections.map crlf).flatMap fun s => s.splitBySpans (find s.code) stripped) =
      (sections.flatMap fun s => s.splitBySpans (find s.code) stripped).map crlf := by
  rw [List.flatMap_map, List.map_flatMap]
  refine congrArg (sections.flatMap ·) (funext fun s => ?_)
  have hspans : find s.crlf.code = (find s.code).map (Span.crlf s.code) := hfind s.code
  rw [hspans, splitBySpans_crlf (horderly s.code)]

section Fold

variable {joins : Section → Section → Bool} {combine : Section → Section → Section}
variable {P : Section → Prop}

theorem foldFrom_crlf (hP : ∀ s t, P s → P t → P (combine s t))
    (hjoins : ∀ s t, joins s.crlf t.crlf = joins s t)
    (hcombine : ∀ s t, P s → combine s.crlf t.crlf = (combine s t).crlf) {s : Section}
    {rest : List Section} (h : (s :: rest).Pairwise fun a _ => P a) :
    foldFrom joins combine s.crlf (rest.map crlf) = (foldFrom joins combine s rest).map crlf := by
  induction rest generalizing s with
  | nil => rfl
  | cons t rest ih =>
    obtain ⟨hs, hrest⟩ := List.pairwise_cons.1 h
    have hst := hs t List.mem_cons_self
    rw [List.map_cons, foldFrom, foldFrom, hjoins]
    split
    · rw [hcombine s t hst]
      refine ih (List.pairwise_cons.2 ⟨fun u hu => ?_, hrest.of_cons⟩)
      exact hP s t hst ((List.pairwise_cons.1 hrest).1 u hu)
    · rw [ih hrest, List.map_cons]

theorem foldAdjacent_crlf (hP : ∀ s t, P s → P t → P (combine s t))
    (hjoins : ∀ s t, joins s.crlf t.crlf = joins s t)
    (hcombine : ∀ s t, P s → combine s.crlf t.crlf = (combine s t).crlf) {sections : List Section}
    (h : sections.Pairwise fun a _ => P a) :
    foldAdjacent joins combine (sections.map crlf) =
      (foldAdjacent joins combine sections).map crlf := by
  cases sections with
  | nil => rfl
  | cons s rest => exact foldFrom_crlf hP hjoins hcombine h

/-- A merge that only puts texts together needs to know nothing about them. -/
theorem foldAdjacent_crlf_of_merge (hjoins : ∀ s t, joins s.crlf t.crlf = joins s t)
    (hcombine : ∀ s t, combine s.crlf t.crlf = (combine s t).crlf) (sections : List Section) :
    foldAdjacent joins combine (sections.map crlf) =
      (foldAdjacent joins combine sections).map crlf :=
  foldAdjacent_crlf (fun _ _ _ _ => trivial) hjoins (fun s t _ => hcombine s t)
    (List.pairwise_of_forall fun _ _ => trivial)

end Fold

end Section

open Section (crlf)

theorem ScopeRule.opensBlock_crlf (rules : List ScopeRule) (code : Text) :
    opensBlock rules (Text.crlf code) = opensBlock rules code := by
  rw [opensBlock, opensBlock, Text.trim_crlf, Text.rows, Text.rows, Text.lines_crlf,
    List.getLast?_map, List.getLast?_map, List.getLast?_map]
  cases hlast : (Text.lines (Text.trim code)).getLast? with
  | none => rfl
  | some line =>
    have hmem : line ∈ Text.lines (Text.trim code) := List.mem_of_getLast? hlast
    simp only [Option.map_some, Text.trim_lineContent, Text.trim_crlf_of_mem_lines hmem]

namespace Layout

theorem levelsFrom_crlf (previous : Nat) (sections : List Section) :
    levelsFrom previous (sections.map crlf) = (levelsFrom previous sections).map crlf := by
  induction sections generalizing previous with
  | nil => rfl
  | cons s rest ih =>
    have hlevel : (if s.crlf.hasCode then Text.indentWidth s.crlf.code else previous) =
        if s.hasCode then Text.indentWidth s.code else previous := by
      rw [Section.hasCode_crlf, Section.crlf, Text.indentWidth_crlf]
    simp only [List.map_cons, levelsFrom, hlevel, ih]
    rfl

theorem alignText_crlf (docs : Text) : alignText (Text.crlf docs) = Text.crlf (alignText docs) := by
  have hindent {c : Char} (hc : c ∈ Text.indent docs) : Text.isIndentChar c = true :=
    List.all_eq_true.1 (Text.all_isIndentChar_indent docs) c hc
  have hnewline : '\n' ∉ Text.indent docs := fun hmem => absurd (hindent hmem) (by decide)
  have hreturn : '\r' ∉ Text.indent docs := fun hmem => absurd (hindent hmem) (by decide)
  rw [alignText, alignText, Text.indent_crlf, Text.lines_crlf, Text.crlf_flatten, List.map_map,
    List.map_map]
  refine congrArg List.flatten (List.map_congr_left fun line _ => ?_)
  rw [Function.comp_apply, Function.comp_apply, Text.afterHead?_crlf hnewline hreturn]
  cases Text.afterHead? (Text.indent docs) line <;> rfl

theorem alignDocs_crlf (sections : List Section) :
    alignDocs (sections.map crlf) = (alignDocs sections).map crlf := by
  rw [alignDocs, alignDocs, List.map_map, List.map_map]
  refine List.map_congr_left fun s _ => ?_
  simp only [Function.comp_apply, crlf, alignText_crlf]

theorem mergeUp_crlf (rules : List ScopeRule) (sections : List Section) :
    mergeUp rules (sections.map crlf) = (mergeUp rules sections).map crlf := by
  refine Section.foldAdjacent_crlf_of_merge (fun s t => ?_) (fun s t => ?_) sections
  · simp only [joinsUp, Section.hasCode_crlf, Section.hasDocs_crlf]
    rw [crlf, ScopeRule.opensBlock_crlf]
  · rw [mergeKeepingScope, Section.merge_crlf]
    rfl

theorem mergeDown_crlf (sections : List Section) :
    mergeDown (sections.map crlf) = (mergeDown sections).map crlf := by
  refine Section.foldAdjacent_crlf_of_merge (fun s t => ?_) Section.merge_crlf sections
  simp only [joinsDown, Section.hasCode_crlf, Section.hasDocs_crlf]

theorem absorbInto_crlf {s : Section} (hs : EndsLine s.code) (t : Section) :
    absorbInto s.crlf t.crlf = (absorbInto s t).crlf := by
  have hcode := code_absorbInto hs t
  have hcode' : (absorbInto s.crlf t.crlf).code = (absorbInto s t).crlf.code := by
    rw [code_absorbInto (Text.endsLine_crlf hs), crlf, crlf, crlf, hcode, Text.crlf_append]
  have hshape (s t : Section) : absorbInto s t =
      { s with
        code := (absorbInto s t).code
        annotations := s.annotations.extend t.annotations } := rfl
  rw [hshape, hcode']
  rfl

theorem absorb_crlf {sections : List Section} (h : Section.Closed sections) :
    absorb (sections.map crlf) = (absorb sections).map crlf := by
  refine Section.foldAdjacent_crlf (fun s t hs ht => ?_) (fun s t => ?_)
    (fun s t hs => absorbInto_crlf hs t) h
  · rw [code_absorbInto hs]
    exact hs.append ht
  · simp only [isAbsorbed, Section.hasDocs_crlf]
    rfl

end Layout

theorem Decorator.attachAll_crlf (marker : Text) (sections : List Section) :
    attachAll marker (sections.map crlf) = (attachAll marker sections).map crlf := by
  refine Section.foldAdjacent_crlf_of_merge (fun s t => rfl) (fun s t => ?_) sections
  rw [attach, Section.merge_crlf]
  rfl

end Marginalia
