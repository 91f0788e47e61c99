import Marginalia.Proofs.Builtin.Stars

/-! # What stands inside a comment between stars

Line comments are taken out first, also from between the delimiters of a paired comment, which is
not complete any more then. So a paired comment becomes documentation as a whole exactly if no later
line of it is a line comment (`blank_uncomment_iff`).
-/

namespace Marginalia

open Text (EndsLine lines size isIndentChar)

/-- A span over all of some code but its blank end leaves nothing to see in the code. -/
theorem Section.hasCode_splitBySpans {code tail : Text} (htail : Text.isBlank tail = true)
    (docs : Text) (stripped : Bool) :
    ∀ s ∈ (ofCode (code ++ tail)).splitBySpans [⟨0, size code, docs⟩] stripped,
      s.hasCode = false := by
  have hgap : Text.slice (size code) (size (code ++ tail)) (code ++ tail) = tail := by
    rw [Text.slice_size ⟨code, tail, rfl, rfl⟩, Text.after_size_append]
  intro s hs
  rw [splitBySpans] at hs
  rcases List.mem_cons.1 hs with rfl | hs
  · have hnone : Text.upTo 0 (code ++ tail) = [] := Text.upTo_size_append [] (code ++ tail)
    rw [hasCode, ofCode, hnone]
    rfl
  · simp only [spanSections, ofCode, hgap, List.append_nil] at hs
    rcases List.mem_cons.1 hs with rfl | hs
    · rfl
    · split at hs
      · rw [List.mem_singleton.1 hs, hasCode, htail]
        rfl
      · cases hs

namespace Builtin

/-- Whether a line is a line comment. -/
def IsSlashed (line : Text) : Prop := "//".toList <+: line.dropWhile isIndentChar

instance (line : Text) : Decidable (IsSlashed line) := inferInstanceAs (Decidable (_ <+: _))

/-- The line comments of the languages with braces. -/
def slashes : InlineComment := { delimiter := "//" }

theorem body?_slashes {line : Text} : slashes.body? line = none ↔ ¬ IsSlashed line :=
  InlineComment.body?_eq_none_iff rfl line

/-- The end delimiter of a paired comment makes no line comment of the line that it stands on. -/
theorem isSlashed_closing_iff {row : Text} : IsSlashed (row ++ "*/\n") ↔ IsSlashed row := by
  induction row with
  | nil => decide
  | cons c row ih =>
    by_cases hc : isIndentChar c = true
    · rw [IsSlashed, IsSlashed, List.cons_append, List.dropWhile_cons_of_pos hc,
        List.dropWhile_cons_of_pos hc]
      exact ih
    · rw [IsSlashed, IsSlashed, List.cons_append, List.dropWhile_cons_of_neg hc,
        List.dropWhile_cons_of_neg hc]
      change ['/', '/'] <+: _ ↔ ['/', '/'] <+: _
      cases row with
      | nil => simp [List.cons_prefix_cons]
      | cons d row => simp [List.cons_prefix_cons]

theorem lines_closing {row : Text} (h : '\n' ∉ row) : lines (row ++ "*/\n") = [row ++ "*/\n"] := by
  have hlast : '\n' ∉ row ++ "*/" := by
    rw [List.mem_append, not_or]
    exact ⟨h, by decide⟩
  have hassoc : row ++ "*/\n" = row ++ "*/" ++ '\n' :: [] := by simp
  rw [hassoc, Text.lines_newline hlast]
  rfl

theorem not_isSlashed_closing_iff (t : Text) :
    (∀ line ∈ lines (t ++ "*/\n"), ¬ IsSlashed line) ↔ ∀ line ∈ lines t, ¬ IsSlashed line := by
  induction t using Text.rows_induction with
  | row row hrow =>
    rw [lines_closing hrow, List.forall_mem_singleton, isSlashed_closing_iff]
    by_cases hne : row = []
    · subst hne
      decide
    · rw [Text.lines_row hrow hne, List.forall_mem_singleton]
  | newline row t hrow ih =>
    rw [List.append_assoc, List.cons_append, Text.lines_newline hrow, Text.lines_newline hrow,
      List.forall_mem_cons, List.forall_mem_cons, ih]

/-- No line comment starts with the start delimiter of a paired one. -/
theorem not_isSlashed_of_opening {line t : Text} (h : line <+: '/' :: '*' :: t) :
    ¬ IsSlashed line := by
  cases line with
  | nil => decide
  | cons c line =>
    obtain ⟨rfl, hline⟩ := List.cons_prefix_cons.1 h
    intro hslashed
    have hboth : ['/'] <+: '*' :: t := (List.cons_prefix_cons.1 hslashed).2.trans hline
    exact absurd (List.cons_prefix_cons.1 hboth).1 (by decide)

theorem uncommented_iff (body : Text) :
    slashes.Uncommented ('/' :: '*' :: (body ++ "*/\n")) ↔
      ∀ line ∈ (lines body).tail, ¬ IsSlashed line := by
  simp only [InlineComment.Uncommented, body?_slashes]
  induction body using Text.rows_induction with
  | row row hrow =>
    have hfirst : '\n' ∉ '/' :: '*' :: row := by simp [hrow]
    have hlines : lines ('/' :: '*' :: (row ++ "*/\n")) = ['/' :: '*' :: (row ++ "*/\n")] :=
      lines_closing hfirst
    have htail : (lines row).tail = [] := by
      by_cases hne : row = []
      · rw [hne]
        rfl
      · rw [Text.lines_row hrow hne]
        rfl
    rw [hlines, htail, List.forall_mem_singleton]
    exact iff_of_true (not_isSlashed_of_opening (List.prefix_refl _)) (List.forall_mem_nil _)
  | newline row t hrow _ =>
    have hfirst : '\n' ∉ '/' :: '*' :: row := by simp [hrow]
    have hlines : lines ('/' :: '*' :: (row ++ '\n' :: t ++ "*/\n")) =
        ('/' :: '*' :: (row ++ ['\n'])) :: lines (t ++ "*/\n") := by
      rw [List.append_assoc, List.cons_append]
      exact Text.lines_newline hfirst _
    rw [hlines, Text.lines_newline hrow, List.tail_cons, List.forall_mem_cons,
      not_isSlashed_closing_iff]
    exact and_iff_right (not_isSlashed_of_opening (List.prefix_refl _))

namespace IsStarComment

variable {b : BlockComment}

theorem spans_eq_nil (h : IsStarComment b) {body : Text} (hbody : ¬ "*/".toList <:+: body) :
    BlockComment.spans [b] ('/' :: '*' :: body) = [] := by
  refine List.eq_nil_iff_forall_not_mem.2 fun s hs => hbody ?_
  obtain ⟨pos, hspan⟩ := BlockComment.exists_nextSpan_of_mem_spans hs
  obtain ⟨before, run, n, rest, hcode, _, _, _, _, hstop⟩ := h.exists_of_nextSpan hspan
  have hrest : rest <:+ body := by
    have hsuffix : rest <:+ '/' :: '*' :: body := by
      rw [hcode]
      exact ⟨before ++ run ++ '/' :: stars n, by simp⟩
    have hlength := congrArg List.length hcode
    refine List.suffix_of_suffix_length_le hsuffix ⟨['/', '*'], rfl⟩ ?_
    simp only [List.length_cons, List.length_append, stars, List.length_replicate] at hlength
    omega
  obtain ⟨s, t, rfl, _⟩ := exists_of_firstStop? hstop
  exact List.IsInfix.trans ⟨s, t, List.append_assoc s "*/".toList t⟩ hrest.isInfix

/-- Nothing starts in the last character of some code. -/
theorem nextSpan_last (h : IsStarComment b) {code : Text} {pos : Nat}
    (hpos : size code ≤ pos + 1) : b.nextSpan code pos = none := by
  refine Option.eq_none_iff_forall_ne_some.2 fun s hs => ?_
  obtain ⟨hle, _⟩ := BlockComment.bounds_of_nextSpan hs
  obtain ⟨before, run, n, rest, rfl, _, _, _, hstart, _⟩ := h.exists_of_nextSpan hs
  have hstars : size (stars n) = 1 + size (List.replicate n '*') := by rfl
  have hslash : '/'.utf8Size = 1 := by rfl
  simp only [Text.size_append, Text.size_cons, hstars, hslash] at hpos
  omega

theorem exists_spans_enclosed (h : IsStarComment b) {body : Text}
    (hhead : (body ++ "*/\n").head? ≠ some '*') (hbody : ¬ "*/".toList <:+: body) :
    ∃ docs, BlockComment.spans [b] ('/' :: '*' :: (body ++ "*/\n")) =
      [⟨0, size ('/' :: '*' :: (body ++ "*/")), docs⟩] := by
  obtain ⟨docs, hspans⟩ := @exists_spans_eq_cons b (body ++ "*/\n") h 0 _ hhead
    (firstStop?_enclosed hbody)
  have hlast : size ('/' :: '*' :: (body ++ "*/\n")) ≤
      size ('/' :: '*' :: (body ++ "*/")) + 1 := by
    simp only [Text.size_cons, Text.size_append]
    change _ + (_ + (_ + 3)) ≤ _ + (_ + (_ + 2)) + 1
    omega
  have hnext : BlockComment.nextOf [b] ('/' :: '*' :: (body ++ "*/\n"))
      (size ('/' :: '*' :: (body ++ "*/"))) = none := by
    rw [BlockComment.nextOf_singleton, h.nextSpan_last hlast]
  refine ⟨docs, hspans.trans (congrArg _ ?_)⟩
  exact BlockComment.spansFrom_eq_nil hnext _

end IsStarComment

/-- What stands before a line that is not empty cannot reach into the end delimiter. -/
theorem prefix_body {before body rest : Text} (hend : EndsLine before) (hrest : rest ≠ [])
    (h : body ++ "*/\n" = before ++ rest) : before <+: body := by
  rcases List.append_eq_append_iff.1 h with ⟨m, rfl, hm⟩ | ⟨m, rfl, _⟩
  · have hmend : EndsLine m := hend.of_append
    match m with
    | [] => exact ⟨[], by simp⟩
    | [c] =>
      obtain rfl := (List.cons_eq_cons.1 hm).1
      exact absurd (hmend '*' rfl) (by decide)
    | [c, d] =>
      obtain rfl := (List.cons_eq_cons.1 (List.cons_eq_cons.1 hm).2).1
      exact absurd (hmend '/' rfl) (by decide)
    | c :: d :: e :: m =>
      have hnil := (List.cons_eq_cons.1 (List.cons_eq_cons.1 (List.cons_eq_cons.1 hm).2).2).2
      exact absurd (List.append_eq_nil_iff.1 hnil.symm).2 hrest
  · exact List.prefix_append before m

/-- The code before the first line comment keeps the start delimiter. -/
theorem exists_before_slashed {body : Text}
    (h : ¬ slashes.Uncommented ('/' :: '*' :: (body ++ "*/\n"))) :
    ∃ before rest span spans, '/' :: '*' :: (body ++ "*/\n") = '/' :: '*' :: before ++ rest ∧
      before <+: body ∧ slashes.spans ('/' :: '*' :: (body ++ "*/\n")) = span :: spans ∧
      span.start = size ('/' :: '*' :: before) := by
  obtain ⟨before, line, rest, span, spans, hcode, hend, hline, hspans, hstart⟩ :=
    InlineComment.exists_of_not_uncommented h
  have hslashed : IsSlashed line := Classical.not_not.1 (mt body?_slashes.2 hline)
  match before with
  | [] =>
    have hprefix : line <+: '/' :: '*' :: (body ++ "*/\n") := by
      rw [hcode]
      exact List.prefix_append line rest
    exact absurd hslashed (not_isSlashed_of_opening hprefix)
  | [c] =>
    obtain rfl := (List.cons_eq_cons.1 hcode).1
    exact absurd (hend '/' rfl) (by decide)
  | c :: d :: before =>
    obtain ⟨hc, hrest⟩ := List.cons_eq_cons.1 hcode
    obtain ⟨hd, htail⟩ := List.cons_eq_cons.1 hrest
    subst hc hd
    have hne : line ++ rest ≠ [] := by
      intro hnil
      rw [(List.append_eq_nil_iff.1 hnil).1] at hslashed
      exact absurd hslashed (by decide)
    exact ⟨before, line ++ rest, span, spans, hcode,
      prefix_body (EndsLine.of_append (s := ['/', '*']) hend) hne htail, hspans, hstart⟩

namespace IsStarComment

variable {b : BlockComment} {body : Text}

theorem exists_hasCode (h : IsStarComment b) (hbody : ¬ "*/".toList <:+: body)
    (hslashed : ¬ slashes.Uncommented ('/' :: '*' :: (body ++ "*/\n"))) :
    ∃ s ∈ BlockComment.extract [b]
      (slashes.extract [.ofCode ('/' :: '*' :: (body ++ "*/\n"))]), s.hasCode = true := by
  obtain ⟨before, rest, span, spans, hcode, hbefore, hspans, hstart⟩ :=
    exists_before_slashed hslashed
  have hopen : BlockComment.spans [b] ('/' :: '*' :: before) = [] :=
    h.spans_eq_nil fun hends => hbody (hends.trans hbefore.isInfix)
  have hfirst : Section.ofCode ('/' :: '*' :: before) ∈
      slashes.extract [.ofCode ('/' :: '*' :: (body ++ "*/\n"))] := by
    rw [InlineComment.extract, List.flatMap_singleton, Section.ofCode, hspans, hcode,
      Section.splitBySpans, hstart, Text.upTo_size_append]
    exact List.mem_cons_self
  refine ⟨.ofCode ('/' :: '*' :: before), List.mem_flatMap.2 ⟨_, hfirst, ?_⟩, rfl⟩
  rw [Section.ofCode, hopen]
  exact List.mem_singleton_self _

theorem hasCode_extract (h : IsStarComment b) (hhead : (body ++ "*/\n").head? ≠ some '*')
    (hbody : ¬ "*/".toList <:+: body) :
    ∀ s ∈ BlockComment.extract [b] [.ofCode ('/' :: '*' :: (body ++ "*/\n"))],
      s.hasCode = false := by
  obtain ⟨docs, hspans⟩ := h.exists_spans_enclosed hhead hbody
  have hcode : '/' :: '*' :: (body ++ "*/\n") = '/' :: '*' :: (body ++ "*/") ++ "\n" := by simp
  rw [BlockComment.extract, if_neg (by simp), List.flatMap_singleton]
  change ∀ s ∈ Section.splitBySpans _ (BlockComment.spans [b] ('/' :: '*' :: _)) true, _
  rw [hspans, hcode]
  exact Section.hasCode_splitBySpans rfl docs true

end IsStarComment

/-- A paired comment becomes documentation as a whole exactly if no later line of its text is a line
comment. -/
theorem blank_uncomment_iff {o : Outline} (ho : o ∈ braceFamily) :
    ∃ l, o.build = .ok l ∧ IsSource l ∧ l.commentKinds = [.inlineComment, .blockComment] ∧
      ∀ body : Text, body.head? = some ' ' ∨ body.head? = some '\n' → ¬ "*/".toList <:+: body →
        ((∀ s ∈ l.uncomment ("/*" ++ body ++ "*/\n"), s.hasCode = false) ↔
          ∀ line ∈ (lines body).tail, ¬ IsSlashed line) := by
  obtain ⟨l, b, hbuild, hl, hkinds, hinline, hblocks, hb⟩ := exists_brace ho
  refine ⟨l, hbuild, hl, hkinds, fun body hstart hbody => ?_⟩
  have hhead : (body ++ "*/\n").head? ≠ some '*' := by
    rw [List.head?_append]
    rcases hstart with hstart | hstart
    all_goals
      rw [hstart]
      decide
  have hcode : "/*" ++ body ++ "*/\n" = '/' :: '*' :: (body ++ "*/\n") := by simp
  rw [hcode, hl.uncomment_eq_extract hkinds hinline, hblocks]
  change (∀ s ∈ BlockComment.extract [b] (slashes.extract _), _) ↔ _
  rw [← uncommented_iff]
  constructor
  · intro hblank
    refine Classical.not_not.1 fun hslashed => ?_
    obtain ⟨s, hs, hsome⟩ := hb.exists_hasCode hbody hslashed
    rw [hblank s hs] at hsome
    cases hsome
  · intro huncommented
    rw [InlineComment.extract, List.flatMap_singleton]
    change ∀ s ∈ BlockComment.extract [b]
      (Section.splitBySpans _ (slashes.spans ('/' :: '*' :: _)) true), _
    rw [huncommented.spans_eq_nil]
    exact hb.hasCode_extract hhead hbody

theorem blank_uncomment_iff_split :
    c ∈ braceFamily ∧ ∃ l, c.build = .ok l ∧ IsSource l ∧
      (∀ s ∈ l.uncomment "/*\n * x\n*/\n", s.hasCode = false) ∧
      ∃ s ∈ l.uncomment "/*\n// x\n*/\n", s.hasCode = true := by
  have hc : c ∈ braceFamily := by simp [braceFamily]
  obtain ⟨l, hbuild, hl, _, hblank⟩ := blank_uncomment_iff hc
  refine ⟨hc, l, hbuild, hl, (hblank "\n * x\n" (.inr rfl) (by decide +kernel)).2 (by decide), ?_⟩
  have hsplit : ¬ ∀ s ∈ l.uncomment "/*\n// x\n*/\n", s.hasCode = false :=
    mt (hblank "\n// x\n" (.inr rfl) (by decide +kernel)).1 (by decide)
  simpa using hsplit

end Builtin

end Marginalia
