import Marginalia.Proofs.Builtin.Source
import Marginalia.Proofs.Comment.Block
import Marginalia.Proofs.Regex.Delimiter

/-! # Comments between stars

The delimiters of the languages with braces are runs of stars, each as long as possible. A comment
stops at the first end behind all stars of its start, so that a start takes the star of an end that
comes right after it (`stop_nearest_iff`).
-/

namespace Marginalia

open Text (EndsLine size isIndentChar first?)

namespace Builtin

/-- A paired comment of C with its delimiters, as far as they matter to a search. -/
structure IsStarComment (b : BlockComment) : Prop where
  opening : b.opening.pattern =
    .sequence [.look .lineStart, .group 1 .indent, .char '/', .plus true (.char '*')]
  closing : b.closing.pattern = .sequence [.plus true (.char '*'), .char '/']
  ignored : b.ignored = none

instance (b : BlockComment) : Decidable (IsStarComment b) :=
  decidable_of_iff (_ ∧ _ ∧ _) ⟨fun ⟨h, h', h''⟩ => ⟨h, h', h''⟩, fun ⟨h, h', h''⟩ => ⟨h, h', h''⟩⟩

/-- The languages whose comments are those of C. -/
def braceFamily : List Outline := [c, javaScript, php]

theorem exists_brace {o : Outline} (ho : o ∈ braceFamily) :
    ∃ l b, o.build = .ok l ∧ IsSource l ∧ l.commentKinds = [.inlineComment, .blockComment] ∧
      l.grammar.inline = some { delimiter := "//" } ∧ l.grammar.blocks = [b] ∧
      IsStarComment b := by
  have hsource : o ∈ outlines ∧ o.kind = .source := by
    simp only [braceFamily, List.mem_cons, List.not_mem_nil, or_false] at ho
    rcases ho with rfl | rfl | rfl
    all_goals exact ⟨by simp [outlines], rfl⟩
  have hchecked : (braceFamily.all fun o => o.build.toOption.any fun l =>
      decide (l.commentKinds = [.inlineComment, .blockComment]) &&
        (l.grammar.inline.any fun c => c.delimiter == "//".toList && c.ignored == none) &&
        l.grammar.blocks.length == 1 && l.grammar.blocks.all fun b => decide (IsStarComment b)) =
      true := by decide +kernel
  obtain ⟨l, hbuild, hl⟩ := exists_isSource hsource.1 hsource.2
  obtain ⟨built, hbuilt, hcomments⟩ :=
    exists_of_any_toOption (List.all_eq_true.1 hchecked o ho)
  rw [hbuild] at hbuilt
  cases hbuilt
  simp only [Bool.and_eq_true, decide_eq_true_iff, Option.any_eq_true, beq_iff_eq,
    List.length_eq_one_iff] at hcomments
  obtain ⟨⟨⟨hkinds, ⟨delimiter, ignored⟩, hinline, rfl, rfl⟩, b, hblocks⟩, hall⟩ := hcomments
  rw [hblocks, List.all_cons, Bool.and_eq_true, decide_eq_true_iff] at hall
  exact ⟨l, b, hbuild, hl, hkinds, hinline, hblocks, hall.1⟩

/-- A number of stars, one at least. -/
def stars (n : Nat) : Text := List.replicate (n + 1) '*'

theorem stars_ne_nil (n : Nat) : stars n ≠ [] := List.cons_ne_nil _ _

theorem contains_of_mem_stars {n : Nat} : ∀ c ∈ stars n, (CharSet.char '*').contains c = true := by
  intro c hc
  rw [List.eq_of_mem_replicate hc]
  rfl

/-- The stars that a text starts with. -/
theorem exists_stars {t : Text} (h : t.head? = some '*') :
    ∃ n rest, t = stars n ++ rest ∧ rest.head? ≠ some '*' := by
  induction t with
  | nil => cases h
  | cons c t ih =>
    obtain rfl := Option.some.inj h
    by_cases hnext : t.head? = some '*'
    · obtain ⟨n, rest, rfl, hrest⟩ := ih hnext
      exact ⟨n + 1, rest, rfl, hrest⟩
    · exact ⟨0, t, rfl, hnext⟩

/-- Where the first end of a comment stops, a star and a slash. -/
def firstStop? : Text → Text → Option Nat :=
  first? fun before rest =>
    if "*/".toList <+: rest then some (size (before ++ "*/")) else none

section FirstStop

variable {before rest m : Text}

theorem firstStop?_append (h : ∀ s t, m = s ++ t → t ≠ [] → ¬ "*/".toList <+: t ++ rest) :
    firstStop? before (m ++ rest) = firstStop? (before ++ m) rest :=
  Text.first?_append fun s t hm ht => if_neg (h s t hm ht)

theorem firstStop?_eq_none_iff :
    firstStop? before rest = none ↔ ∀ s t, rest = s ++ t → ¬ "*/".toList <+: t := by
  simp [firstStop?, Text.first?_eq_none_iff]

theorem firstStop?_stands :
    firstStop? before ('*' :: '/' :: rest) = some (size (before ++ "*/")) :=
  Text.first?_of_some (if_pos ⟨rest, rfl⟩)

theorem exists_of_firstStop? {stop : Nat} (h : firstStop? before rest = some stop) :
    ∃ s t, rest = s ++ ("*/" ++ t) ∧ stop = size (before ++ s ++ "*/") := by
  obtain ⟨s, t, rfl, hstop, _⟩ := Text.exists_of_first? h
  split at hstop
  · rename_i hstands
    obtain ⟨t, rfl⟩ := hstands
    exact ⟨s, t, rfl, (Option.some.inj hstop).symm⟩
  · cases hstop

theorem size_lt_of_firstStop? {stop : Nat} (h : firstStop? before rest = some stop) :
    size (before ++ "/") < stop := by
  obtain ⟨s, t, _, rfl⟩ := exists_of_firstStop? h
  simp only [Text.size_append]
  change _ + 1 < _ + _ + 2
  omega

/-- An end that starts in a text either lies in it or has just its star there. -/
theorem end_stands_append (hm : m ≠ []) (h : "*/".toList <+: m ++ rest) :
    "*/".toList <+: m ∨ m = ['*'] ∧ rest.head? = some '/' := by
  obtain ⟨c, m, rfl⟩ := List.exists_cons_of_ne_nil hm
  obtain ⟨rfl, hslash⟩ := List.cons_prefix_cons.1 h
  cases m with
  | nil =>
    obtain ⟨tail, rfl⟩ := hslash
    exact .inr ⟨rfl, rfl⟩
  | cons d m =>
    obtain ⟨rfl, _⟩ := List.cons_prefix_cons.1 hslash
    exact .inl ⟨m, rfl⟩

/-- An end takes only the last of the stars before it. -/
theorem firstStop?_replicate (n : Nat) (h : n ≠ 0 → rest.head? ≠ some '/') :
    firstStop? before (List.replicate n '*' ++ rest) =
      firstStop? (before ++ List.replicate n '*') rest := by
  refine firstStop?_append fun s t hst ht hstands => ?_
  rcases end_stands_append ht hstands with ⟨tail, rfl⟩ | ⟨rfl, hslash⟩
  · have hmem : '/' ∈ List.replicate n '*' := by simp [hst]
    exact absurd (List.eq_of_mem_replicate hmem) (by decide)
  · refine h ?_ hslash
    rintro rfl
    cases s <;> cases hst

theorem firstStop?_enclosed (h : ¬ "*/".toList <:+: m) :
    firstStop? before (m ++ "*/\n") = some (size (before ++ m ++ "*/")) := by
  have hwithin (s t : Text) (hst : m = s ++ t) (ht : t ≠ []) : ¬ "*/".toList <+: t ++ "*/\n" := by
    intro hstands
    rcases end_stands_append ht hstands with hinside | ⟨_, hslash⟩
    · rw [hst] at h
      exact h (hinside.isInfix.trans (List.suffix_append s t).isInfix)
    · cases hslash
  rw [firstStop?_append hwithin]
  exact firstStop?_stands

/-- Behind all stars of a start, the first end is that behind its first star, unless the last of its
stars is part of an end. -/
theorem firstStop?_stars_iff {n stop : Nat}
    (h : firstStop? (before ++ '/' :: stars n) rest = some stop) :
    firstStop? (before ++ "/*") (List.replicate n '*' ++ rest) = some stop ↔
      ¬ (n ≠ 0 ∧ rest.head? = some '/') := by
  have hassoc : before ++ '/' :: stars n = before ++ "/*" ++ List.replicate n '*' := by
    rw [stars, List.replicate_succ, List.append_assoc]
    rfl
  rw [hassoc] at h
  constructor
  · rintro hfirst ⟨hn, hslash⟩
    obtain ⟨n, rfl⟩ := Nat.exists_eq_succ_of_ne_zero hn
    obtain ⟨rest, rfl⟩ := List.head?_eq_some_iff.1 hslash
    have hlt := size_lt_of_firstStop? h
    have hhead : n ≠ 0 → ('*' :: '/' :: rest).head? ≠ some '/' := fun _ hslash => by cases hslash
    have hsame : before ++ "/*" ++ List.replicate (n + 1) '*' ++ "/" =
        before ++ "/*" ++ List.replicate n '*' ++ "*/" := by
      rw [List.replicate_succ', ← List.append_assoc, List.append_assoc]
      rfl
    rw [List.replicate_succ', List.append_assoc, List.singleton_append,
      firstStop?_replicate n hhead, firstStop?_stands] at hfirst
    rw [← Option.some.inj hfirst, ← hsame] at hlt
    exact Nat.lt_irrefl _ hlt
  · intro hfree
    rw [firstStop?_replicate n fun hn hslash => hfree ⟨hn, hslash⟩]
    exact h

end FirstStop

namespace IsStarComment

variable {b : BlockComment} {before rest : Text}

theorem head?_runs_start {n : Nat} (hrest : rest.head? ≠ some '*') (captures : List Capture) :
    ((Pattern.sequence [.char '/', .plus true (.char '*')]).runs
        ⟨.between before ('/' :: (stars n ++ rest)), captures, []⟩).head? =
      some ⟨.between (before ++ '/' :: stars n) rest, captures, []⟩ := by
  have hslash : (Pattern.char '/').runs
      ⟨.between before ('/' :: (stars n ++ rest)), captures, []⟩ =
        [⟨.between (before ++ ['/']) (stars n ++ rest), captures, []⟩] :=
    Pattern.runs_literal_between ['/'] before (stars n ++ rest) captures
  have hassoc : before ++ '/' :: stars n = before ++ ['/'] ++ stars n := by simp
  rw [Pattern.runs_sequence_cons, hslash, List.flatMap_singleton, hassoc,
    ← Thread.skip_between (before ++ ['/']) (stars n)]
  exact Pattern.head?_runs_plus (stars_ne_nil n) contains_of_mem_stars
    (Pattern.any_contains_char_eq_false.2 hrest) rfl

theorem exists_of_runs_start {t : Thread}
    (h : (Pattern.sequence [.char '/', .plus true (.char '*')]).runs t ≠ []) :
    ∃ n rest, t.cursor.rest = '/' :: (stars n ++ rest) ∧ rest.head? ≠ some '*' := by
  rw [Pattern.runs_sequence_cons, Pattern.runs_char] at h
  split at h
  · rename_i hslash
    rw [List.flatMap_singleton, Pattern.sequence, Pattern.runs_plus, Pattern.runs_char] at h
    split at h
    · rename_i hstar
      obtain ⟨n, rest, hrest, hhead⟩ := exists_stars hstar
      refine ⟨n, rest, ?_, hhead⟩
      rw [Thread.rest_skip] at hrest
      cases hcursor : t.cursor.rest with
      | nil => simp [hcursor] at hslash
      | cons c tail =>
        rw [hcursor] at hslash hrest
        obtain rfl := Option.some.inj hslash
        exact congrArg _ hrest
    · exact absurd rfl h
  · exact absurd rfl h

theorem runs_start_eq_nil {t : Thread} (h : t.cursor.rest.head? ≠ some '/') :
    (Pattern.sequence [.char '/', .plus true (.char '*')]).runs t = [] := by
  rw [Pattern.runs_sequence_cons, Pattern.runs_char, if_neg h]
  rfl

theorem runs_opening (h : IsStarComment b) {run : Text}
    (hrun : ∀ c ∈ run, isIndentChar c = true) (hrest : rest.head?.any isIndentChar = false) :
    b.opening.pattern.runs (.start (.between before (run ++ rest))) =
      if EndsLine before then
        (Pattern.sequence [.char '/', .plus true (.char '*')]).runs
          ⟨.between (before ++ run) rest, [⟨1, size before, size (before ++ run)⟩], []⟩
      else [] := by
  rw [h.opening]
  refine Pattern.runs_opening (fun t ht => runs_start_eq_nil fun hhead => ?_) hrun hrest
  rw [hhead] at ht
  exact absurd ht (by decide)

theorem matchHere_opening (h : IsStarComment b) {run : Text} {n : Nat} (hline : EndsLine before)
    (hrun : ∀ c ∈ run, isIndentChar c = true) (hrest : rest.head? ≠ some '*') :
    b.opening.pattern.matchHere (.between before (run ++ '/' :: (stars n ++ rest))) =
      some ⟨size before, size (before ++ run ++ '/' :: stars n),
        [⟨1, size before, size (before ++ run)⟩]⟩ := by
  rw [Pattern.matchHere, h.runs_opening hrun rfl, if_pos hline, head?_runs_start hrest]
  rfl

theorem exists_of_matchHere_opening (h : IsStarComment b) {m : Match}
    (hm : b.opening.pattern.matchHere (.between before rest) = some m) :
    ∃ run n tail, rest = run ++ '/' :: (stars n ++ tail) ∧ EndsLine before ∧
      (∀ c ∈ run, isIndentChar c = true) ∧ tail.head? ≠ some '*' ∧ m.start = size before ∧
      m.stop = size (before ++ run ++ '/' :: stars n) := by
  obtain ⟨run, tail, rfl, hrun, htail⟩ := Text.exists_leading Text.isIndentChar rest
  have hruns : b.opening.pattern.runs (.start (.between before (run ++ tail))) ≠ [] := by
    intro hnil
    rw [Pattern.matchHere, hnil] at hm
    cases hm
  rw [h.runs_opening hrun htail] at hruns
  split at hruns
  · rename_i hline
    obtain ⟨n, rest, hrest, hhead⟩ := exists_of_runs_start hruns
    obtain rfl : tail = '/' :: (stars n ++ rest) := hrest
    rw [h.matchHere_opening hline hrun hhead] at hm
    cases hm
    exact ⟨run, n, rest, rfl, hline, hrun, hhead, rfl, rfl⟩
  · exact absurd rfl hruns

theorem matchHere_closing (h : IsStarComment b) {n : Nat} (hrest : rest.head? ≠ some '*') :
    b.closing.pattern.matchHere (.between before (stars n ++ rest)) =
      if rest.head? = some '/' then some ⟨size before, size (before ++ stars n ++ ['/']), []⟩
      else none := by
  have hslash (t : Thread) (ht : t.cursor.rest.head?.any (CharSet.char '*').contains = true) :
      (Pattern.char '/').runs t = [] := by
    rw [Pattern.runs_char, Pattern.any_contains_char.1 ht]
    rfl
  have hstars : ((Pattern.plus true (.char '*')).runs
      (.start (.between before (stars n ++ rest)))).flatMap (Pattern.char '/').runs =
        (Pattern.char '/').runs ⟨.between (before ++ stars n) rest, [], []⟩ := by
    rw [← Thread.skip_between]
    exact Pattern.flatMap_runs_plus hslash (stars_ne_nil n) contains_of_mem_stars
      (Pattern.any_contains_char_eq_false.2 hrest) rfl
  rw [h.closing, Pattern.matchHere, Pattern.runs_sequence_cons]
  change (List.flatMap (Pattern.char '/').runs _).head?.map _ = _
  rw [hstars]
  split
  · rename_i hhead
    obtain ⟨rest, rfl⟩ : ∃ tail, rest = '/' :: tail := List.head?_eq_some_iff.1 hhead
    have hread : (Pattern.char '/').runs ⟨.between (before ++ stars n) ('/' :: rest), [], []⟩ =
        [⟨.between (before ++ stars n ++ ['/']) rest, [], []⟩] :=
      Pattern.runs_literal_between ['/'] (before ++ stars n) rest []
    rw [hread]
    rfl
  · rename_i hhead
    have hnone : (Pattern.char '/').runs ⟨.between (before ++ stars n) rest, [], []⟩ = [] := by
      rw [Pattern.runs_char]
      exact if_neg hhead
    rw [hnone]
    rfl

theorem matchHere_closing_eq_none (h : IsStarComment b) (hrest : rest.head? ≠ some '*') :
    b.closing.pattern.matchHere (.between before rest) = none := by
  have hstar : (Thread.start (.between before rest)).cursor.rest.head? ≠ some '*' := hrest
  rw [h.closing, Pattern.matchHere, Pattern.runs_sequence_cons, Pattern.runs_plus,
    Pattern.runs_char, if_neg hstar]
  rfl

theorem exists_matchHere_closing (h : IsStarComment b) (before : Text)
    (hrest : "*/".toList <+: rest) :
    ∃ m, b.closing.pattern.matchHere (.between before rest) = some m := by
  obtain ⟨tail, rfl⟩ := hrest
  have hslash : ('/' :: tail).head? ≠ some '*' := fun hstar => by cases hstar
  exact ⟨_, (h.matchHere_closing (n := 0) hslash).trans (if_pos rfl)⟩

theorem exists_of_matchHere_closing (h : IsStarComment b) {m : Match}
    (hm : b.closing.pattern.matchHere (.between before rest) = some m) :
    ∃ n tail, rest = stars n ++ '/' :: tail ∧ m.stop = size (before ++ stars n ++ ['/']) := by
  by_cases hstar : rest.head? = some '*'
  · obtain ⟨n, rest, rfl, hrest⟩ := exists_stars hstar
    rw [h.matchHere_closing hrest] at hm
    split at hm
    · rename_i hslash
      obtain ⟨tail, rfl⟩ := List.head?_eq_some_iff.1 hslash
      cases hm
      exact ⟨n, tail, rfl, rfl⟩
    · cases hm
  · rw [h.matchHere_closing_eq_none hstar] at hm
    cases hm

theorem stops_eq_firstStop? (h : IsStarComment b) (before rest : Text) :
    (first? (fun before rest => b.closing.pattern.matchHere (.between before rest)) before
      rest).map (·.stop) = firstStop? before rest := by
  cases hfirst : first? (fun before rest => b.closing.pattern.matchHere (.between before rest))
      before rest with
  | none =>
    rw [Text.first?_eq_none_iff] at hfirst
    refine (firstStop?_eq_none_iff.2 fun s t hst hstands => ?_).symm
    obtain ⟨m, hm⟩ := h.exists_matchHere_closing (before ++ s) hstands
    rw [hfirst s t hst] at hm
    cases hm
  | some m =>
    obtain ⟨s, t, rfl, hmatch, hnone⟩ := Text.exists_of_first? hfirst
    obtain ⟨n, tail, rfl, hstop⟩ := h.exists_of_matchHere_closing hmatch
    have hbefore (u v : Text) (huv : s = u ++ v) (hv : v ≠ []) :
        ¬ "*/".toList <+: v ++ (stars n ++ '/' :: tail) := by
      intro hstands
      obtain ⟨m, hm⟩ := h.exists_matchHere_closing (before ++ u) hstands
      rw [hnone u v huv hv] at hm
      cases hm
    have hstars : stars n ++ '/' :: tail = List.replicate n '*' ++ '*' :: '/' :: tail := by
      rw [stars, List.replicate_succ', List.append_assoc, List.singleton_append]
    have hassoc : before ++ s ++ stars n ++ ['/'] =
        before ++ s ++ List.replicate n '*' ++ "*/" := by
      rw [stars, List.replicate_succ', ← List.append_assoc, List.append_assoc]
      rfl
    have hhead : n ≠ 0 → ('*' :: '/' :: tail).head? ≠ some '/' := fun _ hslash => by cases hslash
    rw [firstStop?_append hbefore, hstars, firstStop?_replicate n hhead, firstStop?_stands,
      ← hassoc, ← hstop]
    rfl

theorem closing?_eq (h : IsStarComment b) (before rest : Text) :
    (b.closing? (before ++ rest) (size before)).map (·.stop) = firstStop? before rest := by
  have hloops : b.closing.pattern.loopsRead = true := by
    rw [h.closing]
    rfl
  have hsize : ¬ size (before ++ rest) < size before := by
    rw [Text.size_append]
    omega
  have hskips (start : Nat) : b.skipsClosing (before ++ rest) start = false := by
    rw [BlockComment.skipsClosing, h.ignored]
    rfl
  rw [← h.stops_eq_firstStop?, BlockComment.closing?, BlockComment.closingFrom, if_neg hsize,
    Regex.findAt_eq_first? hloops]
  split
  · rename_i hfirst
    rw [hfirst]
  · rename_i m hfirst
    rw [hskips, hfirst]
    rfl

theorem loopsRead_opening (h : IsStarComment b) : b.opening.pattern.loopsRead = true := by
  rw [h.opening]
  rfl

theorem exists_of_nextSpan (h : IsStarComment b) {code : Text} {pos : Nat} {s : Span}
    (hs : b.nextSpan code pos = some s) :
    ∃ before run n rest, code = before ++ run ++ '/' :: (stars n ++ rest) ∧ EndsLine before ∧
      (∀ c ∈ run, isIndentChar c = true) ∧ rest.head? ≠ some '*' ∧ s.start = size before ∧
      firstStop? (before ++ run ++ '/' :: stars n) rest = some s.stop := by
  obtain ⟨_, m, e, _, _, hm, he, rfl⟩ := BlockComment.exists_of_spanFrom hs
  obtain ⟨before, rest, rfl, hmatch⟩ := Regex.exists_matchHere_of_findAt h.loopsRead_opening hm
  obtain ⟨run, n, tail, rfl, hline, hrun, htail, hstart, hstop⟩ :=
    h.exists_of_matchHere_opening hmatch
  refine ⟨before, run, n, tail, by simp, hline, hrun, htail, hstart, ?_⟩
  have hcode : before ++ (run ++ '/' :: (stars n ++ tail)) =
      before ++ run ++ '/' :: stars n ++ tail := by
    simp
  rw [hstop, hcode] at he
  rw [← h.closing?_eq, he]
  rfl

theorem exists_nextSpan (h : IsStarComment b) {n stop : Nat} (hrest : rest.head? ≠ some '*')
    (hstop : firstStop? ('/' :: stars n) rest = some stop) :
    ∃ docs, b.nextSpan ('/' :: (stars n ++ rest)) 0 = some ⟨0, stop, docs⟩ := by
  have hindent : ∀ c ∈ ([] : Text), isIndentChar c = true := fun c hc => by cases hc
  have hopening : b.opening.findAt ('/' :: (stars n ++ rest)) 0 =
      some ⟨0, size ('/' :: stars n), [⟨1, 0, 0⟩]⟩ :=
    (Regex.findAt_eq_first? h.loopsRead_opening [] _).trans
      (Text.first?_of_some (h.matchHere_opening Text.endsLine_nil hindent hrest))
  have hskips (stop : Nat) : b.skipsOpening ('/' :: (stars n ++ rest)) stop = false := by
    rw [BlockComment.skipsOpening, h.ignored]
    rfl
  obtain ⟨e, he, rfl⟩ := Option.map_eq_some_iff.1 ((h.closing?_eq _ _).trans hstop)
  rw [BlockComment.nextSpan, BlockComment.spanFrom, if_neg (Nat.not_lt_zero _), hopening]
  simp only [hskips, Bool.false_eq_true, if_false]
  rw [List.cons_append] at he
  rw [he]
  exact ⟨_, rfl⟩

/-- A comment at the very start of some code is the first one found. -/
theorem exists_spans_eq_cons (h : IsStarComment b) {n stop : Nat} (hrest : rest.head? ≠ some '*')
    (hstop : firstStop? ('/' :: stars n) rest = some stop) :
    ∃ docs, BlockComment.spans [b] ('/' :: (stars n ++ rest)) =
      ⟨0, stop, docs⟩ :: BlockComment.spansFrom [b] ('/' :: (stars n ++ rest))
        ('/' :: (stars n ++ rest)).length stop := by
  obtain ⟨docs, hnext⟩ := h.exists_nextSpan hrest hstop
  refine ⟨docs, BlockComment.spans_eq_cons (List.cons_ne_nil _ _) ?_ ?_⟩
  · rw [BlockComment.nextOf_singleton, hnext]
  · exact Nat.zero_lt_of_lt (size_lt_of_firstStop? hstop)

end IsStarComment

/-- A paired comment between stars ends at the first end behind the two characters that start it,
exactly if its start does not take the star of an end right after it. -/
theorem stop_nearest_iff {o : Outline} (ho : o ∈ braceFamily) :
    ∃ l b, o.build = .ok l ∧ l.grammar.blocks = [b] ∧
      ∀ code, ∀ s ∈ BlockComment.spans [b] code, ∃ before run n rest,
        code = before ++ run ++ '/' :: (stars n ++ rest) ∧ EndsLine before ∧
          (∀ c ∈ run, isIndentChar c = true) ∧ rest.head? ≠ some '*' ∧ s.start = size before ∧
          firstStop? (before ++ run ++ '/' :: stars n) rest = some s.stop ∧
          (firstStop? (before ++ run ++ "/*") (List.replicate n '*' ++ rest) = some s.stop ↔
            ¬ (n ≠ 0 ∧ rest.head? = some '/')) := by
  obtain ⟨l, b, hbuild, _, _, _, hblocks, hb⟩ := exists_brace ho
  refine ⟨l, b, hbuild, hblocks, fun code s hs => ?_⟩
  obtain ⟨pos, hspan⟩ := BlockComment.exists_nextSpan_of_mem_spans hs
  obtain ⟨before, run, n, rest, hcode, hline, hrun, hrest, hstart, hstop⟩ :=
    hb.exists_of_nextSpan hspan
  exact ⟨before, run, n, rest, hcode, hline, hrun, hrest, hstart, hstop,
    firstStop?_stars_iff hstop⟩

theorem stop_nearest_iff_taken :
    c ∈ braceFamily ∧ ∃ l b, c.build = .ok l ∧ l.grammar.blocks = [b] ∧
      ∃ s ∈ BlockComment.spans [b] "/**/\nint x;\n/* a */\n", s.start = 0 ∧ s.stop = 19 ∧
        firstStop? "/*" "*/\nint x;\n/* a */\n" ≠ some s.stop := by
  have hc : c ∈ braceFamily := by simp [braceFamily]
  obtain ⟨l, b, hbuild, hblocks, hstops⟩ := stop_nearest_iff hc
  obtain ⟨built, b', hbuilt, _, _, _, hblocks', hb⟩ := exists_brace hc
  rw [hbuild] at hbuilt
  cases hbuilt
  rw [hblocks] at hblocks'
  cases hblocks'
  have hmem : ∃ docs, ⟨0, 19, docs⟩ ∈ BlockComment.spans [b] "/**/\nint x;\n/* a */\n" := by
    obtain ⟨docs, hspans⟩ := @IsStarComment.exists_spans_eq_cons b "/\nint x;\n/* a */\n" hb 1 19
      (by decide) (by decide)
    exact ⟨docs, hspans ▸ List.mem_cons_self⟩
  obtain ⟨docs, hmem⟩ := hmem
  refine ⟨hc, l, b, hbuild, hblocks, _, hmem, rfl, rfl, ?_⟩
  obtain ⟨before, run, n, rest, hcode, _, hrun, hrest, hstart, _, hiff⟩ := hstops _ _ hmem
  obtain rfl : before = [] := Text.size_eq_zero_iff.1 hstart.symm
  cases run with
  | cons d run =>
    obtain rfl : '/' = d := (List.cons_eq_cons.1 hcode).1
    exact absurd (hrun '/' List.mem_cons_self) (by decide)
  | nil =>
    have hstars : "**/\nint x;\n/* a */\n".toList = stars n ++ rest :=
      (List.cons_eq_cons.1 hcode).2
    match n with
    | 0 =>
      obtain rfl := (List.cons_eq_cons.1 hstars).2
      exact absurd rfl hrest
    | 1 =>
      obtain rfl := (List.cons_eq_cons.1 (List.cons_eq_cons.1 hstars).2).2
      exact fun hstop => hiff.1 hstop ⟨Nat.one_ne_zero, rfl⟩
    | n + 2 =>
      have hslash := (List.cons_eq_cons.1 (List.cons_eq_cons.1 (List.cons_eq_cons.1 hstars).2).2).1
      exact absurd hslash (by decide)

end Builtin

end Marginalia
