import Marginalia.Pass
import Marginalia.Proofs.Comment.Inline
import Marginalia.Proofs.Section.Break
import Mathlib.Data.List.Forall2

/-! # Runs of comment lines

Line comments are found by looking at one line at a time: the spans are the maximal runs of comment
lines, and what is left of the code are the other lines as they stand (`spans_classified`).
-/

namespace Marginalia.InlineComment

open Text (EndsLine lines size slice)
open Section (codeOf)

variable {c : InlineComment}

/-- The line starts, after its indentation, with the delimiter and a rest that is not ignored. -/
def Carries (c : InlineComment) (line rest : Text) : Prop :=
  line.dropWhile Text.isIndentChar = c.delimiter ++ rest ∧ c.isIgnored rest = false

def IsCommentLine (c : InlineComment) (line : Text) : Prop := ∃ rest, c.Carries line rest

theorem body?_eq_some_iff {line rest : Text} : c.body? line = some rest ↔ c.Carries line rest := by
  rw [body?, Carries, ← Text.afterHead?_eq_some_iff]
  cases Text.afterHead? c.delimiter (line.dropWhile Text.isIndentChar) with
  | none => simp
  | some body =>
    simp only [Option.ite_none_left_eq_some, Option.some.injEq, Bool.not_eq_true]
    constructor
    · rintro ⟨hkept, rfl⟩
      exact ⟨rfl, hkept⟩
    · rintro ⟨rfl, hkept⟩
      exact ⟨hkept, rfl⟩

theorem isCommentLine_iff {line : Text} : c.IsCommentLine line ↔ (c.body? line).isSome = true := by
  rw [Option.isSome_iff_exists]
  exact exists_congr fun rest => body?_eq_some_iff.symm

theorem not_isCommentLine_iff {line : Text} : ¬ c.IsCommentLine line ↔ c.body? line = none := by
  rw [isCommentLine_iff, Bool.not_eq_true, Option.isSome_eq_false_iff, Option.isNone_iff_eq_none]

instance (c : InlineComment) : DecidablePred c.IsCommentLine :=
  fun _ => decidable_of_iff' _ isCommentLine_iff

/-- Comment lines, with what follows their delimiters, between lines that do not go on with them. -/
structure MaximalRun (c : InlineComment) (before run after rests : List Text) : Prop where
  nonempty : run ≠ []
  carries : List.Forall₂ c.Carries run rests
  before : ∀ line ∈ before.getLast?, ¬ c.IsCommentLine line
  after : ∀ line ∈ after.head?, ¬ c.IsCommentLine line

/-- The span of a run of lines in some code that starts at an offset. -/
def runSpan (offset : Nat) (before run rests : List Text) : Span :=
  ⟨offset + size before.flatten, offset + size before.flatten + size run.flatten, rests.flatten⟩

/-- The lines of some code that are no comment lines. -/
def otherLines (c : InlineComment) (code : Text) : List Text :=
  (lines code).filter fun line => ¬ c.IsCommentLine line

theorem mapM_body?_eq_some_iff {run rests : List Text} :
    run.mapM c.body? = some rests ↔ List.Forall₂ c.Carries run rests := by
  induction run generalizing rests with
  | nil => simp [eq_comm]
  | cons line run ih =>
    simp only [List.mapM_cons, Option.bind_eq_bind, Option.bind_eq_some_iff, Option.pure_def,
      Option.some.injEq, body?_eq_some_iff, ih, List.forall₂_cons_left_iff]
    constructor
    · rintro ⟨rest, hline, others, hrun, rfl⟩
      exact ⟨rest, others, hline, hrun, rfl⟩
    · rintro ⟨rest, others, hline, hrun, rfl⟩
      exact ⟨rest, hline, others, hrun, rfl⟩

section MaximalRun

variable {before run rest b r a rests : List Text}

theorem isCommentLine_of_forall₂ (h : List.Forall₂ c.Carries run rests) :
    ∀ line ∈ run, c.IsCommentLine line := by
  intro line hline
  obtain ⟨i, hi, rfl⟩ := List.getElem_of_mem hline
  exact ⟨_, h.get hi (by rwa [← h.length_eq])⟩

theorem MaximalRun.isCommentLine (h : c.MaximalRun b r a rests) :
    ∀ line ∈ r, c.IsCommentLine line :=
  isCommentLine_of_forall₂ h.carries

/-- Two maximal runs that begin at the same place are the same. -/
theorem MaximalRun.eq_of_append (h : c.MaximalRun b r a rests)
    (hrun : ∀ line ∈ run, c.IsCommentLine line)
    (hrest : ∀ line ∈ rest.head?, ¬ c.IsCommentLine line) (heq : r ++ a = run ++ rest) :
    r = run ∧ a = rest := by
  rcases List.append_eq_append_iff.1 heq with ⟨m, rfl, rfl⟩ | ⟨m, rfl, rfl⟩
  · cases m with
    | nil => simp
    | cons line m => exact absurd (hrun line (by simp)) (h.after line rfl)
  · cases m with
    | nil => simp
    | cons line m => exact absurd (h.isCommentLine line (by simp)) (hrest line rfl)

/-- A maximal run is the first one, or it lies behind the first one. -/
theorem MaximalRun.first_or_later (h : c.MaximalRun b r a rests)
    (hbefore : ∀ line ∈ before, ¬ c.IsCommentLine line)
    (hrun : ∀ line ∈ run, c.IsCommentLine line)
    (hrest : ∀ line ∈ rest.head?, ¬ c.IsCommentLine line)
    (heq : b ++ (r ++ a) = before ++ (run ++ rest)) :
    (b = before ∧ r = run ∧ a = rest) ∨
      ∃ b', b = before ++ (run ++ b') ∧ rest = b' ++ (r ++ a) ∧ c.MaximalRun b' r a rests := by
  rcases List.append_eq_append_iff.1 heq with ⟨m, rfl, hm⟩ | ⟨m, rfl, hm⟩
  · cases m with
    | nil => exact .inl ⟨by simp, h.eq_of_append hrun hrest hm⟩
    | cons line m =>
      -- The run would begin among lines that are no comment lines.
      obtain ⟨first, others, rfl⟩ := List.exists_cons_of_ne_nil h.nonempty
      obtain rfl : first = line := (List.cons.inj hm).1
      exact absurd (h.isCommentLine first List.mem_cons_self) (hbefore first (by simp))
  · rcases List.append_eq_append_iff.1 hm.symm with ⟨m', rfl, hm'⟩ | ⟨b', rfl, rfl⟩
    · rcases List.eq_nil_or_concat m with rfl | ⟨m, line, rfl⟩
      · exact .inl ⟨by simp, h.eq_of_append hrun hrest (by simpa using hm')⟩
      · have hlast : ¬ c.IsCommentLine line := h.before line (by simp)
        exact absurd (hrun line (by simp)) hlast
    · refine .inr ⟨b', rfl, rfl, h.nonempty, h.carries, fun line hline => h.before line ?_, h.after⟩
      rw [List.getLast?_append, List.getLast?_append, Option.mem_def.1 hline]
      rfl

end MaximalRun

theorem Uncommented.not_isCommentLine {code : Text} (h : c.Uncommented code) :
    ∀ line ∈ lines code, ¬ c.IsCommentLine line :=
  fun line hline => not_isCommentLine_iff.2 (h line hline)

theorem Uncommented.otherLines_eq {code : Text} (h : c.Uncommented code) :
    c.otherLines code = lines code :=
  List.filter_eq_self.2 fun line hline => decide_eq_true (h.not_isCommentLine line hline)

theorem otherLines_append {s : Text} (hs : EndsLine s) (t : Text) :
    c.otherLines (s ++ t) = c.otherLines s ++ c.otherLines t := by
  rw [otherLines, Text.lines_append hs, List.filter_append]
  rfl

theorem lines_append_of_rest {run rest : Text} (h : rest ≠ [] → EndsLine run) :
    lines (run ++ rest) = lines run ++ lines rest := by
  by_cases hrest : rest = []
  · simp [hrest]
  · exact Text.lines_append (h hrest) rest

section Carves

variable {offset : Nat} {code text done : Text} {spans : List Span}

/-- The runs that the scan finds are those that are maximal. -/
theorem Carves.mem_iff (h : c.Carves offset code spans) (span : Span) :
    span ∈ spans ↔ ∃ before run after rests, lines code = before ++ (run ++ after) ∧
      c.MaximalRun before run after rests ∧ span = runSpan offset before run rests := by
  induction h with
  | kept hcode =>
    refine iff_of_false List.not_mem_nil ?_
    rintro ⟨before, run, after, rests, hlines, hrun, rfl⟩
    obtain ⟨line, others, rfl⟩ := List.exists_cons_of_ne_nil hrun.nonempty
    have hline := hrun.isCommentLine line List.mem_cons_self
    exact hcode.not_isCommentLine line (by simp [hlines]) hline
  | @run offset before run rest docs spans hbefore hend hrun hrunEnd hnext _ ih =>
    obtain ⟨hne, bodies, hbodies, rfl⟩ := hrun
    have hbodies := mapM_body?_eq_some_iff.1 hbodies
    have hlines : lines (before ++ (run ++ rest)) = lines before ++ (lines run ++ lines rest) := by
      rw [Text.lines_append hend, lines_append_of_rest hrunEnd]
    have hhead : ∀ line ∈ (lines rest).head?, ¬ c.IsCommentLine line :=
      fun line hline => not_isCommentLine_iff.2 (hnext line hline)
    have hfirst : c.MaximalRun (lines before) (lines run) (lines rest) bodies :=
      ⟨Text.lines_ne_nil hne, hbodies,
        fun line hline => hbefore.not_isCommentLine line (List.mem_of_getLast? hline), hhead⟩
    rw [List.mem_cons, ih, hlines]
    constructor
    · rintro (rfl | ⟨b, r, a, rests, hrest, hmaximal, rfl⟩)
      · exact ⟨_, _, _, _, rfl, hfirst, by simp [runSpan]⟩
      · refine ⟨lines before ++ (lines run ++ b), r, a, rests, by simp [hrest], ?_, ?_⟩
        · refine ⟨hmaximal.nonempty, hmaximal.carries, fun line hline => ?_, hmaximal.after⟩
          rcases List.eq_nil_or_concat b with rfl | ⟨b, last, rfl⟩
          · -- Then the lines behind the first run would begin with a comment line.
            obtain ⟨first, others, rfl⟩ := List.exists_cons_of_ne_nil hmaximal.nonempty
            refine absurd (hmaximal.isCommentLine first List.mem_cons_self) (hhead first ?_)
            rw [hrest]
            rfl
          · refine hmaximal.before line ?_
            simpa [← List.append_assoc] using hline
        · simp [runSpan, Nat.add_assoc]
    · rintro ⟨b, r, a, rests, heq, hmaximal, rfl⟩
      rcases hmaximal.first_or_later hbefore.not_isCommentLine hfirst.isCommentLine hhead heq.symm
        with ⟨rfl, rfl, rfl⟩ | ⟨b', rfl, hrest, hlater⟩
      · have hrests : rests = bodies := by
          have hsome := mapM_body?_eq_some_iff.2 hmaximal.carries
          rw [mapM_body?_eq_some_iff.2 hbodies] at hsome
          exact (Option.some.inj hsome).symm
        left
        simp [runSpan, hrests]
      · exact .inr ⟨b', r, a, rests, hrest, hlater, by simp [runSpan, Nat.add_assoc]⟩

/-- Between two runs there is a line that belongs to neither. -/
theorem Carves.lt_start (h : c.Carves offset code spans)
    (hhead : ∀ line ∈ (lines code).head?, c.body? line = none) :
    ∀ s ∈ spans, offset < s.start := by
  intro s hs
  obtain ⟨before, run, after, rests, hlines, hrun, rfl⟩ := (h.mem_iff s).1 hs
  obtain ⟨first, others, rfl⟩ := List.exists_cons_of_ne_nil hrun.nonempty
  cases before with
  | nil =>
    have hnone := not_isCommentLine_iff.2 (hhead first (by simp [hlines]))
    exact absurd (hrun.isCommentLine first List.mem_cons_self) hnone
  | cons line before =>
    have hline : line ≠ [] := Text.ne_nil_of_mem_lines (t := code) (by simp [hlines])
    have hsize := mt Text.size_eq_zero_iff.1 hline
    simp only [runSpan, List.flatten_cons, Text.size_append]
    omega

theorem Carves.pairwise (h : c.Carves offset code spans) :
    spans.Pairwise fun s t => s.stop < t.start := by
  induction h with
  | kept _ => exact .nil
  | run _ _ _ _ hnext hrest ih => exact List.pairwise_cons.2 ⟨hrest.lt_start hnext, ih⟩

/-- What stands before, between and behind the runs are the other lines. -/
theorem Carves.codeOf_spanSections (h : c.Carves offset code spans) (htext : text = done ++ code)
    (hdone : size done = offset) (level : Nat) (stripped : Bool) :
    slice offset (Span.nextStart text spans) text ++
      codeOf (Section.spanSections level stripped text spans) = (c.otherLines code).flatten := by
  induction h generalizing done with
  | @kept offset code hcode =>
    subst htext hdone
    have hslice := Text.slice_size_append done code []
    rw [List.append_nil] at hslice
    rw [hcode.otherLines_eq, Text.flatten_lines, Span.nextStart, Section.spanSections,
      Section.codeOf_nil, List.append_nil, Text.size_append, hslice]
  | @run offset before run rest docs spans hbefore hend hrun hrunEnd _ hrest ih =>
    have htext' : text = (done ++ (before ++ run)) ++ rest := by simp [htext]
    have hdone' : size (done ++ (before ++ run)) = offset + size before + size run := by
      simp [hdone, Nat.add_assoc]
    have ih := ih htext' hdone'
    have horderly := hrest.orderly htext' hdone'
    have hstop : Text.Boundary text (offset + size before + size run) :=
      ⟨_, rest, htext', hdone'⟩
    -- A gap that is left out is empty.
    have hgap : codeOf (if offset + size before + size run < Span.nextStart text spans then
        [{ code := slice (offset + size before + size run) (Span.nextStart text spans) text,
           level }] else []) =
          slice (offset + size before + size run) (Span.nextStart text spans) text := by
      split
      · simp
      · rename_i hge
        have hle := horderly.le_nextStart hstop.le_size
        have hnext := horderly.boundary_nextStart
        exact ((Text.slice_eq_nil_iff hstop hnext hle).2 (by omega)).symm
    have hfirst : slice offset (offset + size before) text = before := by
      rw [htext, ← hdone, Text.slice_size_append]
    have hrunLines : c.otherLines run = [] := by
      obtain ⟨hne, bodies, hbodies, _⟩ := hrun
      have hcomments : ∀ line ∈ lines run, c.IsCommentLine line :=
        isCommentLine_of_forall₂ (mapM_body?_eq_some_iff.1 hbodies)
      exact List.filter_eq_nil_iff.2 fun line hline => by simpa using hcomments line hline
    have hlines : c.otherLines (run ++ rest) = c.otherLines rest := by
      rw [otherLines, lines_append_of_rest hrunEnd, List.filter_append, ← otherLines, hrunLines,
        List.nil_append, otherLines]
    rw [Section.spanSections_cons, List.cons_append, Section.codeOf_cons, Section.codeOf_append,
      hgap, List.nil_append, ih, Span.nextStart, hfirst, otherLines_append hend, hlines,
      hbefore.otherLines_eq, List.flatten_append, Text.flatten_lines]

end Carves

theorem codeOf_splitBySpans (s : Section) :
    codeOf (s.splitBySpans (c.spans s.code) true) = (c.otherLines s.code).flatten := by
  have hcode := (carves_spans c s.code).codeOf_spanSections (List.nil_append s.code).symm rfl
    s.level true
  rw [← hcode]
  cases hspans : c.spans s.code with
  | nil =>
    rw [Span.nextStart, Text.slice_size (Text.boundary_zero s.code), Text.after, Text.cut_zero]
    rfl
  | cons span rest =>
    rw [Section.splitBySpans, Section.codeOf_cons, Span.nextStart, slice, Text.after, Text.cut_zero]
    rfl

theorem extract_extract (sections : List Section) :
    c.extract (c.extract sections) = c.extract sections := by
  rw [extract]
  refine (List.flatMap_congr fun s hs => ?_).trans (List.flatMap_singleton' _)
  rw [(uncommented_extract sections s hs).spans_eq_nil, Section.splitBySpans]

/-- The spans of line comments are the maximal runs of comment lines, in order, and the other lines
are all the code that is left. There is nothing to find in it a second time. -/
theorem spans_classified (c : InlineComment) (g : Grammar) :
    (∀ code : Text,
      (∀ span, span ∈ c.spans code ↔ ∃ before run after rests,
        lines code = before ++ (run ++ after) ∧ c.MaximalRun before run after rests ∧
          span = runSpan 0 before run rests) ∧
      (c.spans code).Pairwise fun s t => s.stop < t.start) ∧
    ∀ sections : List Section,
      let extracted := Pass.extractInline.run { g with inline := some c } sections
      codeOf extracted = sections.flatMap (fun s => (c.otherLines s.code).flatten) ∧
        Pass.extractInline.run { g with inline := some c } extracted = extracted := by
  refine ⟨fun code => ⟨(carves_spans c code).mem_iff, (carves_spans c code).pairwise⟩, ?_⟩
  intro sections
  refine ⟨?_, extract_extract sections⟩
  change codeOf (c.extract sections) = _
  rw [extract, codeOf, List.flatMap_assoc]
  exact List.flatMap_congr fun s _ => codeOf_splitBySpans s

end Marginalia.InlineComment
