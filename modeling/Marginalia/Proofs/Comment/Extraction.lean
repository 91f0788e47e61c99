import Marginalia.Pass
import Marginalia.Proofs.Comment.Block
import Marginalia.Proofs.Comment.Docstring
import Marginalia.Proofs.Comment.Inline
import Marginalia.Proofs.Regex.Captures

/-! # Taking comments out

A pass that takes comments out moves ranges of the code into documentation and does nothing else.
The ranges can be cut out, what is quoted from them lies inside them, and put back between the
pieces of code they give the code again (`run_eq_and_removable`).
-/

namespace Marginalia

open Text (Boundary size upTo after slice lines)

namespace Span

/-- A range inside the span that lies between two boundaries of the code. -/
structure Holds (code : Text) (span : Span) (range : Nat × Nat) : Prop where
  start_le : span.start ≤ range.1
  le : range.1 ≤ range.2
  le_stop : range.2 ≤ span.stop
  boundary_start : Boundary code range.1
  boundary_stop : Boundary code range.2

/-- The documentation is quoted from ranges inside the span. -/
def Quotes (code : Text) (span : Span) : Prop :=
  ∃ ranges : List (Nat × Nat), (∀ r ∈ ranges, span.Holds code r) ∧
    span.docs = ranges.flatMap fun r => slice r.1 r.2 code

/-- The code between each span and the next one, or the end. -/
def gaps (code : Text) : List Span → List Text
  | [] => []
  | [span] => [slice span.stop (size code) code]
  | span :: next :: rest => slice span.stop next.start code :: gaps code (next :: rest)

/-- The spans of some code, each with the gap after it. -/
def withGaps (code : Text) (spans : List Span) : List (Span × Text) := spans.zip (gaps code spans)

/-- The code before the first span, then the code of each span and the gap after it. -/
def restored (code : Text) : List Span → Text
  | [] => code
  | span :: rest =>
    upTo span.start code ++
      (withGaps code (span :: rest)).flatMap fun p => slice p.1.start p.1.stop code ++ p.2

/-- Spans that can be cut out of some code and put back. -/
structure Removable (code : Text) (spans : List Span) : Prop where
  orderly : Orderly code 0 spans
  quotes : ∀ span ∈ spans, span.Quotes code
  restored_eq : restored code spans = code

variable {code : Text} {pos : Nat} {span : Span} {rest : List Span}

theorem flatMap_withGaps (h : Orderly code pos (span :: rest)) :
    ((withGaps code (span :: rest)).flatMap fun p => slice p.1.start p.1.stop code ++ p.2) =
      after span.start code := by
  induction rest generalizing pos span with
  | nil =>
    obtain ⟨_, hstart, hle, hstop, _⟩ := h
    rw [Text.after_eq_slice_append hstart hstop hle, ← Text.slice_size hstop]
    simp [withGaps, gaps]
  | cons next rest ih =>
    obtain ⟨_, hstart, hle, hstop, hrest⟩ := h
    have hgap := Text.after_eq_slice_append hstop hrest.2.1 hrest.1
    rw [withGaps, gaps, List.zip_cons_cons, List.flatMap_cons, ← withGaps, ih hrest,
      Text.after_eq_slice_append hstart hstop hle, hgap, List.append_assoc]

theorem Orderly.restored_eq {spans : List Span} (h : Orderly code 0 spans) :
    restored code spans = code := by
  cases spans with
  | nil => rfl
  | cons span rest => rw [restored, flatMap_withGaps h, Text.upTo_append_after]

theorem quotes_of_nil (hdocs : span.docs = []) : span.Quotes code := by
  refine ⟨[], ?_, hdocs⟩
  intro r hr
  cases hr

theorem Holds.quotes {r : Nat × Nat} (h : span.Holds code r)
    (hdocs : span.docs = slice r.1 r.2 code) : span.Quotes code := by
  refine ⟨[r], ?_, ?_⟩
  · intro r' hr'
    rwa [List.mem_singleton.1 hr']
  · rw [hdocs, List.flatMap_singleton]

theorem Holds.withDocs {start stop : Nat} {docs : Text} {r : Nat × Nat}
    (h : Holds code ⟨start, stop, docs⟩ r) (docs' : Text) : Holds code ⟨start, stop, docs'⟩ r :=
  ⟨h.start_le, h.le, h.le_stop, h.boundary_start, h.boundary_stop⟩

theorem Quotes.append {start stop : Nat} {docs docs' : Text}
    (h : Quotes code ⟨start, stop, docs⟩) (h' : Quotes code ⟨start, stop, docs'⟩) :
    Quotes code ⟨start, stop, docs ++ docs'⟩ := by
  obtain ⟨ranges, hranges, rfl⟩ := h
  obtain ⟨ranges', hranges', rfl⟩ := h'
  refine ⟨ranges ++ ranges', ?_, List.flatMap_append.symm⟩
  intro r hr
  rcases List.mem_append.1 hr with hr | hr
  · exact (hranges r hr).withDocs _
  · exact (hranges' r hr).withDocs _

end Span

namespace Section

/-- The documentation of a span, then the code of the gap after it if there is any. -/
def spanParts (finish : Text → Text) (level : Nat) (p : Span × Text) : List Section :=
  { docs := finish p.1.docs, level, stripped := true } ::
    if p.2 = [] then [] else [{ code := p.2, level }]

/-- What a section is replaced by: without spans by itself, otherwise by the section up to the first
span and the parts of each span. -/
def partsBy (finish : Text → Text) (s : Section) : List Span → List Section
  | [] => [s]
  | span :: rest =>
    { s with code := upTo span.start s.code } ::
      (Span.withGaps s.code (span :: rest)).flatMap (spanParts finish s.level)

theorem spanSections_eq {code : Text} {level pos : Nat} {spans : List Span}
    (h : Span.Orderly code pos spans) :
    spanSections level true code spans =
      (Span.withGaps code spans).flatMap (spanParts id level) := by
  induction spans generalizing pos with
  | nil => rfl
  | cons span rest ih =>
    obtain ⟨_, _, _, hstop, hrest⟩ := h
    -- A gap is left out when it is empty, and that is when its two ends are the same.
    have hgap {next : Nat} (hnext : Boundary code next) (hle : span.stop ≤ next) :
        (if span.stop < next then [({ code := slice span.stop next code, level } : Section)]
          else []) =
          if slice span.stop next code = [] then []
          else [{ code := slice span.stop next code, level }] := by
      have hempty := Text.slice_eq_nil_iff hstop hnext hle
      by_cases hlt : span.stop < next
      · rw [if_pos hlt, if_neg (mt hempty.1 (by omega))]
      · rw [if_neg hlt, if_pos (hempty.2 (by omega))]
    cases rest with
    | nil =>
      rw [spanSections, hgap (Text.boundary_size code) hstop.le_size]
      simp [spanSections, Span.withGaps, Span.gaps, spanParts]
    | cons next rest =>
      rw [spanSections, hgap hrest.2.1 hrest.1, ih hrest]
      rfl

theorem splitBySpans_eq {s : Section} {spans : List Span} (h : Span.Orderly s.code 0 spans) :
    s.splitBySpans spans true = s.partsBy id spans := by
  cases spans with
  | nil => rfl
  | cons span rest => rw [splitBySpans, partsBy, spanSections_eq h]

theorem quotes_of_mem_patternSpans {re : Regex} {code : Text} {span : Span}
    (h : span ∈ patternSpans re code) : span.Quotes code := by
  obtain ⟨_, m, hm, rfl⟩ := exists_of_mem_patternSpans h
  rw [Match.group?]
  cases hr : m.range? 1 with
  | none =>
    have hwhole : Span.Holds code ⟨m.start, m.stop, m.text code⟩ (m.start, m.stop) :=
      ⟨Nat.le_refl _, Regex.start_le_stop_of_findAt hm, Nat.le_refl _,
        Regex.boundary_start_of_findAt hm, Regex.boundary_stop_of_findAt hm⟩
    exact hwhole.quotes rfl
  | some r =>
    obtain ⟨hstart, hle, hstop, hboundary⟩ := Regex.bounds_of_range? hm hr
    have hgroup : Span.Holds code ⟨m.start, m.stop, slice r.1 r.2 code⟩ r :=
      ⟨hstart, hle, hstop, hboundary.1, hboundary.2⟩
    exact hgroup.quotes rfl

end Section

namespace InlineComment

variable {c : InlineComment}

theorem exists_of_body? {line body : Text} (h : c.body? line = some body) :
    ∃ before, line = before ++ body := by
  rw [body?] at h
  split at h
  · cases h
  · rename_i rest hrest
    split at h
    · cases h
    · obtain rfl := Option.some.inj h
      have hsplit := List.takeWhile_append_dropWhile (p := Text.isIndentChar) (l := line)
      rw [Text.afterHead?_eq_some_iff.1 hrest, ← List.append_assoc] at hsplit
      exact ⟨_, hsplit.symm⟩

theorem quotes_of_mapM {code done rest : Text} {ls bodies : List Text} {start stop : Nat}
    (h : ls.mapM c.body? = some bodies) (hcode : code = done ++ (ls.flatten ++ rest))
    (hstart : start ≤ size done) (hstop : size (done ++ ls.flatten) ≤ stop) :
    Span.Quotes code ⟨start, stop, bodies.flatten⟩ := by
  induction ls generalizing done bodies with
  | nil =>
    obtain rfl : bodies = [] := by simpa using h
    exact Span.quotes_of_nil rfl
  | cons line ls ih =>
    simp only [List.mapM_cons, Option.bind_eq_bind, Option.bind_eq_some_iff, Option.pure_def,
      Option.some.injEq] at h
    obtain ⟨body, hbody, bodies, hbodies, rfl⟩ := h
    obtain ⟨before, rfl⟩ := exists_of_body? hbody
    rw [List.flatten_cons] at hcode hstop ⊢
    have hcode' : code = (done ++ (before ++ body)) ++ (ls.flatten ++ rest) := by simp [hcode]
    have hbefore : code = (done ++ before) ++ (body ++ (ls.flatten ++ rest)) := by simp [hcode]
    have hline : Span.Holds code ⟨start, stop, body⟩
        (size (done ++ before), size (done ++ before) + size body) := by
      simp only [Text.size_append] at hstop ⊢
      refine ⟨by simp only; omega, by simp only; omega, by simp only; omega,
        ⟨done ++ before, _, hbefore, by simp⟩, ⟨done ++ (before ++ body), _, hcode', ?_⟩⟩
      simp [Nat.add_assoc]
    refine (hline.quotes ?_).append (ih hbodies hcode' ?_ ?_)
    · rw [hbefore, Text.slice_size_append]
    · simp only [Text.size_append]
      omega
    · rwa [List.append_assoc]

theorem Carves.quotes {offset : Nat} {code done text : Text} {spans : List Span}
    (h : c.Carves offset code spans) (htext : text = done ++ code) (hdone : size done = offset) :
    ∀ span ∈ spans, span.Quotes text := by
  induction h generalizing done with
  | kept _ =>
    intro span hspan
    cases hspan
  | @run offset before run rest docs spans _ _ hrun _ _ _ ih =>
    intro span hspan
    rcases List.mem_cons.1 hspan with rfl | hspan
    · obtain ⟨bodies, hbodies, rfl⟩ := hrun.docs_eq
      have hlines : text = (done ++ before) ++ ((lines run).flatten ++ rest) := by simp [htext]
      refine quotes_of_mapM hbodies hlines (Nat.le_of_eq ?_) (Nat.le_of_eq ?_)
      · rw [Text.size_append, hdone]
      · rw [Text.flatten_lines, Text.size_append, Text.size_append, hdone]
    · have hrest : text = (done ++ (before ++ run)) ++ rest := by simp [htext]
      exact ih hrest (by simp [hdone, Nat.add_assoc]) span hspan

end InlineComment

namespace BlockComment

theorem quotes_of_nextSpan {b : BlockComment} {code : Text} {pos : Nat} {span : Span}
    (h : b.nextSpan code pos = some span) : span.Quotes code := by
  obtain ⟨_, m, e, _, _, hm, he, rfl⟩ := exists_of_spanFrom h
  have hopening := Regex.start_le_stop_of_findAt hm
  obtain ⟨hbody, hclosing, hstop, _⟩ := bounds_of_closing? he
  refine Span.Quotes.append ?_ ?_
  · rw [Match.group?]
    cases hr : m.range? 1 with
    | none => exact Span.quotes_of_nil rfl
    | some r =>
      obtain ⟨hstart, hle, hend, hboundary⟩ := Regex.bounds_of_range? hm hr
      have hindent : Span.Holds code ⟨m.start, e.stop, slice r.1 r.2 code⟩ r :=
        ⟨hstart, hle, by simp only; omega, hboundary.1, hboundary.2⟩
      exact hindent.quotes rfl
  · have hinside : Span.Holds code ⟨m.start, e.stop, slice m.stop e.start code⟩ (m.stop, e.start) :=
      ⟨hopening, hbody, hclosing, Regex.boundary_stop_of_findAt hm, hstop⟩
    exact hinside.quotes rfl

theorem quotes_of_mem_spans {kinds : List BlockComment} {code : Text} {span : Span}
    (h : span ∈ spans kinds code) : span.Quotes code := by
  obtain ⟨b, _, pos, hspan⟩ := exists_of_mem_spans h
  exact quotes_of_nextSpan hspan

end BlockComment

namespace Docstring

theorem flatMap_map_unquoteSection (level : Nat) (ps : List (Span × Text)) :
    (ps.flatMap (Section.spanParts id level)).map unquoteSection =
      ps.flatMap (Section.spanParts unquote level) := by
  rw [List.map_flatMap]
  refine congrArg (ps.flatMap ·) (funext fun p => ?_)
  simp only [Section.spanParts]
  split
  · rfl
  · rfl

theorem extract_eq (sections : List Section) :
    extract sections =
      sections.flatMap fun s => s.partsBy unquote (Section.patternSpans regex s.code) := by
  rw [extract]
  refine congrArg (sections.flatMap ·) (funext fun s => ?_)
  rw [Section.splitByPattern, Section.splitBySpans_eq (Section.orderly_patternSpans regex s.code)]
  cases Section.patternSpans regex s.code with
  | nil => rfl
  | cons span rest => simp only [Section.partsBy, flatMap_map_unquoteSection]

end Docstring

/-- The ways to take comments out of the code. -/
inductive Extraction
  | inline
  | blocks
  | docstrings
  deriving DecidableEq

namespace Extraction

def pass : Extraction → Pass
  | inline => .extractInline
  | blocks => .extractBlocks
  | docstrings => .extractDocstrings

/-- The comments that are found in some code. -/
def found (g : Grammar) (code : Text) : Extraction → List Span
  | inline =>
    match g.inline with
    | none => []
    | some comment => comment.spans code
  | blocks => BlockComment.spans g.blocks code
  | docstrings => if g.docstring then Section.patternSpans Docstring.regex code else []

/-- What is made of the text of a comment. -/
def finish : Extraction → Text → Text
  | docstrings => Docstring.unquote
  | _ => id

theorem orderly_found (e : Extraction) (g : Grammar) (code : Text) :
    Span.Orderly code 0 (e.found g code) := by
  cases e with
  | inline =>
    rw [found]
    split
    · trivial
    · exact InlineComment.orderly_spans _ code
  | blocks => exact BlockComment.orderly_spans g.blocks code
  | docstrings =>
    rw [found]
    split
    · exact Section.orderly_patternSpans Docstring.regex code
    · trivial

theorem quotes_of_mem_found {e : Extraction} {g : Grammar} {code : Text} {span : Span}
    (h : span ∈ e.found g code) : span.Quotes code := by
  cases e with
  | inline =>
    rw [found] at h
    split at h
    · cases h
    · exact (InlineComment.carves_spans _ code).quotes (List.nil_append code).symm rfl span h
  | blocks => exact BlockComment.quotes_of_mem_spans h
  | docstrings =>
    rw [found] at h
    split at h
    · exact Section.quotes_of_mem_patternSpans h
    · cases h

theorem removable_found (e : Extraction) (g : Grammar) (code : Text) :
    Span.Removable code (e.found g code) :=
  ⟨e.orderly_found g code, fun _ => quotes_of_mem_found, (e.orderly_found g code).restored_eq⟩

/-- A pass that has nothing to look for finds nothing, so it leaves every section as it is. -/
theorem run_eq (e : Extraction) (g : Grammar) (sections : List Section) :
    e.pass.run g sections =
      sections.flatMap fun s => s.partsBy e.finish (e.found g s.code) := by
  have hidle : sections = sections.flatMap fun s => [s] := List.flatMap_singleton' sections |>.symm
  cases e with
  | inline =>
    simp only [pass, Pass.extractInline, found]
    cases g.inline with
    | none => exact hidle
    | some comment =>
      refine congrArg (sections.flatMap ·) (funext fun s => ?_)
      exact Section.splitBySpans_eq (InlineComment.orderly_spans comment s.code)
  | blocks =>
    simp only [pass, Pass.extractBlocks, BlockComment.extract, found]
    split
    · rename_i hempty
      simp only [List.isEmpty_iff.1 hempty, BlockComment.spans_nil]
      exact hidle
    · refine congrArg (sections.flatMap ·) (funext fun s => ?_)
      exact Section.splitBySpans_eq (BlockComment.orderly_spans g.blocks s.code)
  | docstrings =>
    simp only [pass, Pass.extractDocstrings, found]
    split
    · exact Docstring.extract_eq sections
    · exact hidle

/-- Taking comments out replaces every section by its parts around the comments found in its code,
and the comments found in any code can be cut out and put back. -/
theorem run_eq_and_removable (e : Extraction) (g : Grammar) (sections : List Section) :
    (e.pass.run g sections =
      sections.flatMap fun s => s.partsBy e.finish (e.found g s.code)) ∧
    ∀ code, Span.Removable code (e.found g code) :=
  ⟨e.run_eq g sections, e.removable_found g⟩

end Extraction

end Marginalia
