import Marginalia.Comment.Inline
import Marginalia.Proofs.Section.Closed

/-! # What line comments leave

The spans of line comments cut the code into runs of comment lines and what stands between them
(`carves_spans`). So no comment line is left in the code once they are taken out.
-/

namespace Marginalia.InlineComment

open Text (EndsLine LineStart Boundary lines size)

variable {c : InlineComment}

/-- No line is a comment line. -/
def Uncommented (c : InlineComment) (code : Text) : Prop := ∀ line ∈ lines code, c.body? line = none

/-- A run of comment lines with the text after their delimiters. -/
structure IsRun (c : InlineComment) (run docs : Text) : Prop where
  nonempty : run ≠ []
  docs_eq : ∃ bodies, (lines run).mapM c.body? = some bodies ∧ docs = bodies.flatten

/-- The spans of the runs of comment lines in some code that starts at an offset. -/
inductive Carves (c : InlineComment) : Nat → Text → List Span → Prop
  | kept {offset : Nat} {code : Text} (hcode : c.Uncommented code) : Carves c offset code []
  | run {offset : Nat} {before run rest docs : Text} {spans : List Span}
    (hbefore : c.Uncommented before) (hend : EndsLine before) (hrun : c.IsRun run docs)
    (hrunEnd : rest ≠ [] → EndsLine run) (hnext : ∀ line ∈ (lines rest).head?, c.body? line = none)
    (hrest : Carves c (offset + size before + size run) rest spans) :
    Carves c offset (before ++ (run ++ rest))
      (⟨offset + size before, offset + size before + size run, docs⟩ :: spans)

theorem body?_eq_none_iff (h : c.ignored = none) (line : Text) :
    c.body? line = none ↔ ¬ c.delimiter <+: line.dropWhile Text.isIndentChar := by
  have hkept (rest : Text) : c.isIgnored rest = false := by
    rw [isIgnored, h]
    rfl
  rw [body?]
  split
  · rename_i hnone
    refine iff_of_true rfl ?_
    rintro ⟨rest, hrest⟩
    rw [Text.afterHead?_eq_some_iff.2 hrest.symm] at hnone
    cases hnone
  · rename_i rest hsome
    rw [hkept]
    refine iff_of_false (by simp) (not_not_intro ?_)
    exact ⟨rest, (Text.afterHead?_eq_some_iff.1 hsome).symm⟩

theorem uncommented_nil : c.Uncommented [] := by
  intro line hline
  cases hline

theorem uncommented_line {line : Text} (hline : lines line = [line]) (hbody : c.body? line = none) :
    c.Uncommented line := by
  intro l hl
  rw [hline] at hl
  rw [List.mem_singleton.1 hl]
  exact hbody

theorem Uncommented.append_line {code line : Text} (h : c.Uncommented code) (hend : EndsLine code)
    (hline : lines line = [line]) (hbody : c.body? line = none) : c.Uncommented (code ++ line) := by
  intro l hl
  rw [Text.lines_append hend, hline] at hl
  rcases List.mem_append.1 hl with hl | hl
  · exact h l hl
  · rw [List.mem_singleton.1 hl]
    exact hbody

theorem IsRun.append_line {run docs line body : Text} (h : c.IsRun run docs) (hend : EndsLine run)
    (hline : lines line = [line]) (hbody : c.body? line = some body) :
    c.IsRun (run ++ line) (docs ++ body) := by
  obtain ⟨hne, bodies, hbodies, rfl⟩ := h
  refine ⟨fun hnil => hne (List.append_eq_nil_iff.1 hnil).1, bodies ++ [body], ?_, by simp⟩
  rw [Text.lines_append hend, hline, List.mapM_append, hbodies]
  simp [hbody]

theorem isRun_line {line body : Text} (hline : lines line = [line])
    (hbody : c.body? line = some body) : c.IsRun line body := by
  refine ⟨?_, [body], by simp [hline, hbody], by simp⟩
  rintro rfl
  cases hline

/-- What the scan comes to, with and without a run of comment lines just before the lines left. -/
theorem carves_spansFrom (t : Text) :
    (∀ (offset : Nat) (before : Text), c.Uncommented before → (t ≠ [] → EndsLine before) →
      c.Carves offset (before ++ t) (c.spansFrom (offset + size before) none (lines t))) ∧
    (∀ (offset : Nat) (before run docs : Text), c.Uncommented before → EndsLine before →
      c.IsRun run docs → (t ≠ [] → EndsLine run) →
      c.Carves offset (before ++ (run ++ t))
        (c.spansFrom (offset + size before + size run)
          (some ⟨offset + size before, offset + size before + size run, docs⟩) (lines t))) := by
  -- A line opens, continues or ends a run, so each of the two forms needs the other one of the rest.
  generalize hls : lines t = ls
  induction ls generalizing t with
  | nil =>
    have ht : t = [] := Classical.not_not.1 fun hne => Text.lines_ne_nil hne hls
    subst ht
    constructor
    · intro offset before hbefore _
      rw [List.append_nil]
      exact .kept hbefore
    · intro offset before run docs hbefore hend hrun _
      refine .run hbefore hend hrun (absurd rfl) (fun line hline => ?_) (.kept uncommented_nil)
      cases hline
  | cons line rest ih =>
    obtain ⟨u, rfl, rfl, hline, hlineEnd⟩ := Text.exists_of_lines_eq_cons hls
    have hne : line ++ u ≠ [] := by
      intro hnil
      rw [hnil] at hls
      cases hls
    obtain ⟨ihnone, ihsome⟩ := ih u rfl
    constructor
    · intro offset before hbefore hend
      have hend := hend hne
      cases hbody : c.body? line with
      | none =>
        have hkept := ihnone offset (before ++ line) (hbefore.append_line hend hline hbody)
          fun hu => hend.append (hlineEnd hu)
        simpa [spansFrom, hbody, Nat.add_assoc] using hkept
      | some body =>
        have hrun := ihsome offset before line body hbefore hend (isRun_line hline hbody) hlineEnd
        simpa [spansFrom, hbody] using hrun
    · intro offset before run docs hbefore hend hrun hrunEnd
      have hrunEnd := hrunEnd hne
      cases hbody : c.body? line with
      | none =>
        have hkept := ihnone (offset + size before + size run) line
          (uncommented_line hline hbody) hlineEnd
        have hnext : ∀ l ∈ (lines (line ++ u)).head?, c.body? l = none := by
          intro l hl
          rw [hls] at hl
          cases hl
          exact hbody
        simpa [spansFrom, hbody] using Carves.run hbefore hend hrun (fun _ => hrunEnd) hnext hkept
      | some body =>
        have hlonger := ihsome offset before (run ++ line) (docs ++ body) hbefore hend
          (hrun.append_line hrunEnd hline hbody) fun hu => hrunEnd.append (hlineEnd hu)
        simpa [spansFrom, hbody, Nat.add_assoc] using hlonger

theorem carves_spans (c : InlineComment) (code : Text) : c.Carves 0 code (c.spans code) := by
  simpa [spans] using (carves_spansFrom (c := c) code).1 0 [] uncommented_nil
    fun _ => Text.endsLine_nil

theorem spansFrom_eq_nil {offset : Nat} {ls : List Text} (h : ∀ line ∈ ls, c.body? line = none) :
    c.spansFrom offset none ls = [] := by
  induction ls generalizing offset with
  | nil => rfl
  | cons line ls ih =>
    rw [List.forall_mem_cons] at h
    rw [spansFrom, h.1]
    exact ih h.2

theorem Uncommented.spans_eq_nil {code : Text} (h : c.Uncommented code) : c.spans code = [] :=
  spansFrom_eq_nil h

theorem Uncommented.extract_singleton {s : Section} (h : c.Uncommented s.code) :
    c.extract [s] = [s] := by
  rw [extract, List.flatMap_singleton, h.spans_eq_nil]
  rfl

/-- The first comment line of some code starts its first span. -/
theorem exists_of_not_uncommented {code : Text} (h : ¬ c.Uncommented code) :
    ∃ before line rest span spans, code = before ++ (line ++ rest) ∧ EndsLine before ∧
      c.body? line ≠ none ∧ c.spans code = span :: spans ∧ span.start = size before := by
  have hcarves := carves_spans c code
  generalize hspans : c.spans code = found at hcarves
  cases hcarves with
  | kept hcode => exact absurd hcode h
  | @run _ before run rest docs spans _ hend hrun _ _ _ =>
    obtain ⟨hne, bodies, hbodies, _⟩ := hrun
    obtain ⟨line, others, hlines⟩ := List.exists_cons_of_ne_nil (Text.lines_ne_nil hne)
    obtain ⟨u, rfl, _⟩ := Text.exists_of_lines_eq_cons hlines
    refine ⟨before, line, u ++ rest, _, spans, by simp, hend, ?_, rfl, Nat.zero_add _⟩
    intro hnone
    simp [hlines, hnone] at hbodies

section Carves

variable {offset : Nat} {code rest text done : Text} {spans : List Span}

theorem Carves.orderly (h : c.Carves offset code spans) (htext : text = done ++ code)
    (hdone : size done = offset) : Span.Orderly text offset spans := by
  induction h generalizing done with
  | kept _ => trivial
  | @run offset before run rest docs spans _ _ _ _ _ _ ih =>
    refine ⟨Nat.le_add_right _ _, ⟨done ++ before, run ++ rest, ?_, ?_⟩, Nat.le_add_right _ _,
      ⟨done ++ (before ++ run), rest, ?_, ?_⟩, ?_⟩
    · rw [htext, List.append_assoc]
    · rw [Text.size_append, hdone]
    · simp [htext]
    · simp [hdone, Nat.add_assoc]
    · have hrest : text = (done ++ (before ++ run)) ++ rest := by simp [htext]
      exact ih hrest (by simp [hdone, Nat.add_assoc])

theorem Carves.lineStart (h : c.Carves offset code spans) (htext : text = done ++ code)
    (hdone : size done = offset) (hend : code ≠ [] → EndsLine done) :
    ∀ s ∈ spans, LineStart text s.start := by
  induction h generalizing done with
  | kept _ =>
    intro s hs
    cases hs
  | @run offset before run rest docs spans _ hbefore hrun hrunEnd _ _ ih =>
    have hdoneEnd : EndsLine done := hend fun hnil =>
      hrun.nonempty (List.append_eq_nil_iff.1 (List.append_eq_nil_iff.1 hnil).2).1
    intro s hs
    rcases List.mem_cons.1 hs with rfl | hs
    · refine ⟨done ++ before, run ++ rest, ?_, ?_, hdoneEnd.append hbefore⟩
      · rw [htext, List.append_assoc]
      · rw [Text.size_append, hdone]
    · have hrest : text = (done ++ (before ++ run)) ++ rest := by simp [htext]
      refine ih hrest (by simp [hdone, Nat.add_assoc]) (fun hne => ?_) s hs
      exact hdoneEnd.append (hbefore.append (hrunEnd hne))

theorem Carves.uncommented_first (h : c.Carves offset code spans) :
    ∃ first others, code = first ++ others ∧ c.Uncommented first ∧
      (∀ s ∈ spans.head?, s.start = offset + size first) ∧ (spans = [] → others = []) := by
  cases h with
  | kept hcode => exact ⟨code, [], (List.append_nil _).symm, hcode, by simp, fun _ => rfl⟩
  | @run _ before run rest _ _ hbefore _ _ _ _ _ =>
    exact ⟨before, run ++ rest, rfl, hbefore, by simp, fun hnil => by cases hnil⟩

theorem Carves.uncommented_spanSections (h : c.Carves offset code spans)
    (htext : text = done ++ code) (hdone : size done = offset) (level : Nat) (stripped : Bool) :
    ∀ p ∈ Section.spanSections level stripped text spans, c.Uncommented p.code := by
  induction h generalizing done with
  | kept _ =>
    intro p hp
    cases hp
  | @run offset before run rest docs spans _ _ _ _ _ hrest ih =>
    have htext' : text = (done ++ (before ++ run)) ++ rest := by simp [htext]
    have hdone' : size (done ++ (before ++ run)) = offset + size before + size run := by
      simp [hdone, Nat.add_assoc]
    have ih := ih htext' hdone'
    obtain ⟨first, others, hfirst, huncommented, hstart, hlast⟩ := hrest.uncommented_first
    -- The gap after the run is what stands before the next one.
    have hgap : Text.slice (offset + size before + size run)
        (offset + size before + size run + size first) text = first := by
      rw [htext', hfirst, ← hdone', Text.slice_size_append]
    intro p hp
    cases spans with
    | nil =>
      have hothers := hlast rfl
      have hsize : size text = offset + size before + size run + size first := by
        rw [htext', hfirst, hothers, Text.size_append, hdone', List.append_nil]
      simp only [Section.spanSections, List.append_nil, hsize, hgap] at hp
      rcases List.mem_cons.1 hp with rfl | hp
      · exact uncommented_nil
      · split at hp
        · rw [List.mem_singleton.1 hp]
          exact huncommented
        · cases hp
    | cons next later =>
      rw [Section.spanSections, hstart next rfl, hgap, List.cons_append] at hp
      rcases List.mem_cons.1 hp with rfl | hp
      · exact uncommented_nil
      · rcases List.mem_append.1 hp with hp | hp
        · split at hp
          · rw [List.mem_singleton.1 hp]
            exact huncommented
          · cases hp
        · exact ih p hp

end Carves

theorem orderly_spans (c : InlineComment) (code : Text) : Span.Orderly code 0 (c.spans code) :=
  (carves_spans c code).orderly (List.nil_append code).symm rfl

theorem lineStart_of_mem_spans {code : Text} {s : Span} (hs : s ∈ c.spans code) :
    LineStart code s.start :=
  (carves_spans c code).lineStart (List.nil_append code).symm rfl (fun _ => Text.endsLine_nil) s hs

theorem closed_extract {sections : List Section} (h : Section.Closed sections) :
    Section.Closed (c.extract sections) :=
  h.flatMap fun s _ => Section.closes_splitBySpans (orderly_spans c s.code)
    fun _ hspan => lineStart_of_mem_spans hspan

theorem uncommented_splitBySpans (s : Section) (stripped : Bool) :
    ∀ p ∈ s.splitBySpans (c.spans s.code) stripped, c.Uncommented p.code := by
  have hcarves := carves_spans c s.code
  obtain ⟨first, others, hfirst, huncommented, hstart, hlast⟩ := hcarves.uncommented_first
  have hsections := hcarves.uncommented_spanSections (List.nil_append s.code).symm rfl s.level
    stripped
  intro p hp
  cases hspans : c.spans s.code with
  | nil =>
    rw [hspans, Section.splitBySpans] at hp
    rw [hlast hspans, List.append_nil] at hfirst
    rw [List.mem_singleton.1 hp, hfirst]
    exact huncommented
  | cons span rest =>
    rw [hspans, Section.splitBySpans] at hp
    rcases List.mem_cons.1 hp with rfl | hp
    · simp only
      rw [hstart span (by rw [hspans]; rfl), Nat.zero_add, hfirst, Text.upTo_size_append]
      exact huncommented
    · exact hsections p (hspans ▸ hp)

theorem uncommented_extract (sections : List Section) :
    ∀ p ∈ c.extract sections, c.Uncommented p.code := by
  intro p hp
  obtain ⟨s, _, hp⟩ := List.mem_flatMap.1 hp
  exact uncommented_splitBySpans s true p hp

end Marginalia.InlineComment
