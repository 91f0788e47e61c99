import Marginalia.Proofs.Comment.Quoting
import Marginalia.Proofs.Language.Break

/-! # Docstrings and carriage returns

To the pattern of docstrings a carriage return is neither a blank nor the end of a line. Once
newlines are written as two characters, only a literal at the very end of the code is left to find
(`literal?_crlf`), and the sections are the same as before if and only if there was nothing behind
any docstring (`dropReturns_run_iff`).
-/

namespace Marginalia

open Text (EndsLine size isIndentChar crlf first? slice)

/-- A search that finds nothing inside a break goes through the places of the other form. -/
theorem Text.first?_crlf {α : Type} {f : Text → Text → Option α}
    (hbreak : ∀ s t, f (s ++ ['\r']) t = none) (a b : Text) :
    first? f (crlf a) (crlf b) = first? (fun s t => f (crlf s) (crlf t)) a b := by
  induction b generalizing a with
  | nil => rfl
  | cons c b ih =>
    have hrest := ih (a ++ [c])
    by_cases hc : c = '\n'
    · subst hc
      have hnext : crlf (a ++ ['\n']) = (crlf a ++ ['\r']) ++ ['\n'] := by simp [crlf]
      rw [hnext] at hrest
      rw [crlf_newline, first?, first?, first?, hbreak, Option.none_or, hrest, ← crlf_newline]
    · rw [crlf_append, crlf_cons hc, crlf_nil] at hrest
      rw [crlf_cons hc, first?, first?, hrest, ← crlf_cons hc]

theorem Text.not_mem_crlf {d : Char} {t : Text} (hreturn : d ≠ '\r') (h : d ∉ t) : d ∉ crlf t := by
  induction t with
  | nil => exact h
  | cons c t ih =>
    rw [List.mem_cons, not_or] at h
    by_cases hc : c = '\n'
    · subst hc
      simp [crlf_newline, hreturn, h.1, ih h.2]
    · simp [crlf_cons hc, h.1, ih h.2]

theorem Text.endsLine_crlf_iff {t : Text} : EndsLine (crlf t) ↔ EndsLine t := by
  rw [EndsLine, getLast?_crlf, EndsLine]

theorem Text.head?_crlf_eq_some_iff {d : Char} (hnewline : d ≠ '\n') (hreturn : d ≠ '\r')
    {t : Text} : (crlf t).head? = some d ↔ t.head? = some d := by
  cases t with
  | nil => rfl
  | cons c t =>
    by_cases hc : c = '\n'
    · subst hc
      simp [crlf_newline, hnewline.symm, hreturn.symm]
    · rw [crlf_cons hc, List.head?_cons, List.head?_cons]

namespace Section

theorem start_lt_stop_of_mem_patternSpans {re : Regex} {code : Text} {span : Span}
    (h : span ∈ patternSpans re code) : span.start < span.stop := by
  obtain ⟨m, hm, hspan⟩ := List.mem_filterMap.1 h
  split at hspan
  · cases hspan
  · rename_i hempty
    obtain rfl := Option.some.inj hspan
    obtain ⟨_, hfound⟩ := Regex.exists_findAt_of_mem_matchesFrom hm
    have hle := Regex.start_le_stop_of_findAt hfound
    rw [Match.isEmpty, beq_iff_eq] at hempty
    change m.start < m.stop
    omega

theorem length_gaps (code : Text) (spans : List Span) :
    (Span.gaps code spans).length = spans.length := by
  induction spans with
  | nil => rfl
  | cons span rest ih =>
    cases rest with
    | nil => rfl
    | cons next rest =>
      rw [Span.gaps, List.length_cons, ih]
      rfl

theorem length_lt_partsBy (finish : Text → Text) (s : Section) (spans : List Span) :
    spans.length < (s.partsBy finish spans).length := by
  cases spans with
  | nil => exact Nat.zero_lt_one
  | cons span rest =>
    have hpairs (ps : List (Span × Text)) :
        ps.length ≤ (ps.flatMap (spanParts finish s.level)).length := by
      induction ps with
      | nil => exact Nat.le_refl _
      | cons p ps ih =>
        rw [List.flatMap_cons, List.length_append, spanParts, List.length_cons, List.length_cons]
        omega
    have hle := hpairs (Span.withGaps s.code (span :: rest))
    rw [Span.withGaps, List.length_zip, length_gaps, Nat.min_self] at hle
    exact Nat.lt_succ_of_le hle

/-- A second span or code behind the first one makes a third section. -/
theorem length_partsBy_le_iff {finish : Text → Text} {s : Section} {spans : List Span}
    (h : Span.Orderly s.code 0 spans) (hread : ∀ span ∈ spans, span.start < span.stop) :
    (s.partsBy finish spans).length ≤ 2 ↔ ∀ span ∈ spans, span.stop = size s.code := by
  match spans with
  | [] => simp [partsBy]
  | [span] =>
    obtain ⟨_, _, _, hstop, _⟩ := h
    have hgap := Text.slice_eq_nil_iff hstop (Text.boundary_size s.code) hstop.le_size
    rw [List.forall_mem_singleton, ← hgap, partsBy, Span.withGaps, Span.gaps, List.zip_cons_cons,
      List.zip_nil_left, List.flatMap_singleton, spanParts]
    split <;> simp_all
  | span :: next :: rest =>
    obtain ⟨_, _, _, hstop, hnext, _, _, hend, _⟩ := h
    have hlength := length_lt_partsBy finish s (span :: next :: rest)
    have hlt := hread next (by simp)
    have hle := hend.le_size
    simp only [List.length_cons] at hlength
    constructor
    · intro hfew
      omega
    · intro hlast
      have hspan := hlast span List.mem_cons_self
      omega

end Section

namespace Docstring

theorem closing?_crlf (t : Text) :
    closing? (crlf t) = (closing? t).map fun p => (crlf p.1, crlf p.2) := by
  induction t using escapes_induction with
  | nil => rfl
  | last => rfl
  | escaped c t ih =>
    rw [Text.crlf_cons (by decide)]
    by_cases hc : c = '\n'
    · subst hc
      rw [Text.crlf_newline, closing?, closing?_plain (by decide) (by decide), ih, closing?]
      cases closing? t <;> rfl
    · rw [Text.crlf_cons hc, closing?, ih, closing?]
      cases closing? t with
      | none => rfl
      | some p => simp [Text.crlf_cons hc, Text.crlf_cons]
  | plain c t hbackslash ih =>
    by_cases hquote : c = '"'
    · subst hquote
      rfl
    · have hbreak (d : Char) (hd : c ≠ d) (hreturn : d ≠ '\r') : d ∉ crlf [c] :=
        Text.not_mem_crlf hreturn (by simpa using hd.symm)
      rw [← List.singleton_append, Text.crlf_append,
        closing?_append (hbreak _ hquote (by decide)) (hbreak _ hbackslash (by decide)), ih,
        List.singleton_append, closing?_plain hquote hbackslash, Option.map_map, Option.map_map]
      refine congrArg (Option.map · (closing? t)) (funext fun p => ?_)
      rw [Function.comp_apply, Function.comp_apply, ← Text.crlf_append, List.singleton_append]

theorem unescape_crlf (t : Text) : unescape (crlf t) = crlf (unescape t) := by
  induction t using escapes_induction with
  | nil => rfl
  | last => rfl
  | escaped c t ih =>
    rw [Text.crlf_cons (by decide), unescape]
    by_cases hc : c = '\n'
    · subst hc
      rw [Text.crlf_newline, unescape, unescape_cons (by decide), ih, Text.crlf_newline]
    · rw [Text.crlf_cons hc, unescape, ih, Text.crlf_cons hc]
  | plain c t hbackslash ih =>
    have hbreak : '\\' ∉ crlf [c] :=
      Text.not_mem_crlf (by decide) (by simpa using hbackslash.symm)
    rw [← List.singleton_append, Text.crlf_append, unescape_append hbreak, ih,
      List.singleton_append, unescape_cons hbackslash, ← Text.crlf_append, List.singleton_append]

/-- The literal with every newline of its texts written as two characters. -/
def Literal.crlf (l : Literal) : Literal :=
  { l with body := Text.crlf l.body, rest := Text.crlf l.rest }

theorem ended?_crlf (indentation : Text) (p : Text × Text) :
    ended? indentation (crlf p.1, crlf p.2) =
      ((ended? indentation p).filter (·.rest.isEmpty)).map .crlf := by
  rw [ended?, ended?, Text.dropWhile_crlf rfl, Text.takeWhile_isIndentChar_crlf]
  cases hrest : p.2.dropWhile isIndentChar with
  | nil => rfl
  | cons c t =>
    have hhead : (crlf (c :: t)).head?.all (· == '\n') = false := by
      by_cases hc : c = '\n'
      · subst hc
        rfl
      · simpa [Text.crlf_cons hc] using hc
    rw [hhead, if_neg Bool.false_ne_true]
    split <;> rfl

/-- Where breaks have two characters, a literal is followed by nothing. -/
theorem literal?_crlf (t : Text) :
    literal? (crlf t) = ((literal? t).filter (·.rest.isEmpty)).map .crlf := by
  have hdrop : (crlf t).dropWhile isIndentChar = crlf (t.dropWhile isIndentChar) :=
    Text.dropWhile_crlf rfl t
  by_cases hhead : (t.dropWhile isIndentChar).head? = some '"'
  · obtain ⟨u, hu⟩ := List.head?_eq_some_iff.1 hhead
    rw [hu, Text.crlf_cons (by decide)] at hdrop
    rw [literal?_of_quote hdrop, literal?_of_quote hu, closing?_crlf,
      Text.takeWhile_isIndentChar_crlf]
    cases closing? u with
    | none => rfl
    | some p => exact ended?_crlf _ p
  · have hhead' : ((crlf t).dropWhile isIndentChar).head? ≠ some '"' := by
      rwa [hdrop, Ne, Text.head?_crlf_eq_some_iff (by decide) (by decide)]
    rw [literal?_eq_none hhead, literal?_eq_none hhead']
    rfl

theorem matchBetween?_return (before rest : Text) :
    matchBetween? (before ++ ['\r']) rest = none := by
  rw [matchBetween?, if_neg]
  intro h
  exact absurd (h '\r' (by simp)) (by decide)

theorem matchBetween?_crlf (before rest : Text) :
    matchBetween? (crlf before) (crlf rest) =
      if EndsLine before then
        ((literal? rest).filter (·.rest.isEmpty)).map (·.crlf.matchAfter (crlf before))
      else none := by
  rw [matchBetween?, literal?_crlf, Option.map_map]
  simp only [Text.endsLine_crlf_iff]
  rfl

theorem first?_matchBetween?_crlf (code : Text) :
    first? matchBetween? [] (crlf code) =
      first? (fun s t => matchBetween? (crlf s) (crlf t)) [] code :=
  Text.first?_crlf matchBetween?_return [] code

theorem Literal.stop_spanAfter_iff {l : Literal} {before : Text} :
    (l.spanAfter before).stop = size (before ++ l.written) ↔ l.rest = [] := by
  rw [← Text.size_eq_zero_iff, spanAfter, written]
  simp only [Text.size_append, Text.size_cons]
  omega

theorem Literal.unquote_crlf {l : Literal} (h : ∀ c ∈ l.indentation, isIndentChar c = true) :
    unquote l.crlf.raw = Text.crlf (unquote l.raw) := by
  have hnewline : '\n' ∉ l.indentation := by
    intro hmem
    exact absurd (h _ hmem) (by decide)
  have hraw : unquote l.crlf.raw = l.indentation ++ unescape (Text.crlf l.body) :=
    unquote_raw (l := l.crlf) h
  rw [hraw, unescape_crlf, unquote_raw h, Text.crlf_append, Text.crlf_eq_self hnewline]

/-- Behind a literal at the end of the code there is no section. -/
theorem extract_last {before : Text} {l : Literal} (hrest : l.rest = [])
    (h : first? matchBetween? [] (before ++ l.written) = some (l.matchAfter before)) :
    Section.patternSpans regex (before ++ l.written) = [l.spanAfter before] ∧
      extract [.ofCode (before ++ l.written)] =
        [.ofCode before, { docs := unquote l.raw, stripped := true }] := by
  obtain ⟨later, hspans, hlast⟩ := exists_patternSpans_eq_cons h
  rw [hlast hrest] at hspans
  have hstop : (l.spanAfter before).stop = size (before ++ l.written) :=
    Literal.stop_spanAfter_iff.2 hrest
  have hend := Text.boundary_size (before ++ l.written)
  have hgap : slice (l.spanAfter before).stop (size (before ++ l.written))
      (before ++ l.written) = [] := by
    rw [hstop, Text.slice_eq_nil_iff hend hend (Nat.le_refl _)]
  refine ⟨hspans, ?_⟩
  rw [extract_eq, List.flatMap_singleton, Section.ofCode, hspans, Section.partsBy, Span.withGaps,
    Span.gaps, hgap, List.zip_cons_cons, List.zip_nil_left, List.flatMap_singleton,
    Section.spanParts, if_pos rfl, Literal.spanAfter, Text.upTo_size_append]
  rfl

theorem extract_none {code : Text} (h : first? matchBetween? [] code = none) :
    extract [.ofCode code] = [.ofCode code] := by
  rw [extract_eq, List.flatMap_singleton, Section.ofCode, patternSpans_eq_nil h]
  rfl

theorem rest_of_literal?_crlf {t : Text} {l : Literal} (h : literal? (crlf t) = some l) :
    l.rest = [] := by
  rw [literal?_crlf] at h
  obtain ⟨plain, hplain, rfl⟩ := Option.map_eq_some_iff.1 h
  have hrest := (Option.filter_eq_some_iff.1 hplain).2
  rw [Literal.crlf, List.isEmpty_iff.1 hrest]
  rfl

/-- Where breaks have two characters, a docstring is the last thing in the code. -/
theorem stop_of_mem_patternSpans_crlf {code : Text} {span : Span}
    (h : span ∈ Section.patternSpans regex (crlf code)) : span.stop = size (crlf code) := by
  cases hfirst : first? matchBetween? [] (crlf code) with
  | none =>
    rw [patternSpans_eq_nil hfirst] at h
    cases h
  | some m =>
    have hplaces := hfirst
    rw [first?_matchBetween?_crlf] at hplaces
    obtain ⟨s, t, rfl, hm, _⟩ := Text.exists_of_first? hplaces
    obtain ⟨l, ht, _, hl, rfl⟩ := exists_of_matchBetween? hm
    have hrest : l.rest = [] := rest_of_literal?_crlf (ht ▸ hl)
    rw [Text.crlf_append, ht] at hfirst h ⊢
    rw [List.nil_append] at hfirst
    rw [(extract_last hrest hfirst).1, List.mem_singleton] at h
    rw [h]
    exact Literal.stop_spanAfter_iff.2 hrest

/-- Where nothing stands behind a docstring, breaks of either form are treated alike. -/
theorem extract_crlf {code : Text}
    (h : ∀ span ∈ Section.patternSpans regex code, span.stop = size code) :
    extract [.ofCode (crlf code)] = (extract [.ofCode code]).map .crlf := by
  have hpass {s t : Text} (hnone : matchBetween? s t = none) :
      matchBetween? (crlf s) (crlf t) = none := by
    rw [matchBetween?] at hnone
    rw [matchBetween?_crlf]
    split
    · rename_i hends
      rw [if_pos hends, Option.map_eq_none_iff] at hnone
      rw [hnone]
      rfl
    · rfl
  cases hfirst : first? matchBetween? [] code with
  | none =>
    have hfirst' : first? matchBetween? [] (crlf code) = none := by
      rw [first?_matchBetween?_crlf, Text.first?_eq_none_iff]
      exact fun s t hst => hpass (Text.first?_eq_none_iff.1 hfirst s t hst)
    rw [extract_none hfirst, extract_none hfirst']
    rfl
  | some m =>
    obtain ⟨s, t, rfl, hm, hbefore⟩ := Text.exists_of_first? hfirst
    obtain ⟨l, rfl, hends, hl, rfl⟩ := exists_of_matchBetween? hm
    rw [List.nil_append] at hfirst hends
    obtain ⟨later, hspans, _⟩ := exists_patternSpans_eq_cons hfirst
    have hrest : l.rest = [] := Literal.stop_spanAfter_iff.1 (h _ (hspans ▸ List.mem_cons_self))
    have hl' : literal? (crlf l.written) = some l.crlf := by
      rw [literal?_crlf, hl, Option.filter_some, hrest]
      rfl
    have hwritten : crlf l.written = l.crlf.written := (eq_of_literal? hl').1
    have hfirst' : first? matchBetween? [] (crlf (s ++ l.written)) =
        some (l.crlf.matchAfter (crlf s)) := by
      rw [first?_matchBetween?_crlf,
        Text.first?_append fun u v huv hv => hpass (hbefore u v huv hv)]
      refine Text.first?_of_some ?_
      rw [List.nil_append, matchBetween?, if_pos (Text.endsLine_crlf hends), hl']
      rfl
    have hindentation : ∀ c ∈ l.indentation, isIndentChar c = true := by
      rw [(eq_of_literal? hl).2.1]
      exact List.all_eq_true.1 List.all_takeWhile
    rw [Text.crlf_append, hwritten] at hfirst' ⊢
    have hrest' : l.crlf.rest = [] := rest_of_literal?_crlf hl'
    rw [(extract_last hrest hfirst).2, (extract_last hrest' hfirst').2,
      Literal.unquote_crlf hindentation]
    rfl

theorem length_extract_le_iff (code : Text) :
    (extract [.ofCode code]).length ≤ 2 ↔
      ∀ span ∈ Section.patternSpans regex code, span.stop = size code := by
  have hlength : (extract [.ofCode code]).length =
      ((Section.ofCode code).partsBy unquote (Section.patternSpans regex code)).length := by
    rw [extract_eq, List.flatMap_singleton]
    rfl
  rw [hlength]
  exact Section.length_partsBy_le_iff (Section.orderly_patternSpans regex code)
    fun _ hspan => Section.start_lt_stop_of_mem_patternSpans hspan

/-- Docstrings with something behind them are lost where breaks have two characters. -/
theorem dropReturns_run_iff (g : Grammar) {code : Text} (hcode : '\r' ∉ code) :
    (∀ span ∈ Section.patternSpans regex (crlf code), span.stop = size (crlf code)) ∧
    ((Pass.extractDocstrings.run { g with docstring := true } [.ofCode (crlf code)]).map
        .dropReturns = Pass.extractDocstrings.run { g with docstring := true } [.ofCode code] ↔
      ∀ span ∈ Section.patternSpans regex code, span.stop = size code) := by
  have hstop : ∀ span ∈ Section.patternSpans regex (crlf code), span.stop = size (crlf code) :=
    fun _ hspan => stop_of_mem_patternSpans_crlf hspan
  refine ⟨hstop, ?_⟩
  change (extract [.ofCode (crlf code)]).map .dropReturns = extract [.ofCode code] ↔ _
  constructor
  · intro heq
    rw [← length_extract_le_iff, ← heq, List.length_map, length_extract_le_iff]
    exact hstop
  · intro hlast
    have hlacks : ∀ s ∈ [Section.ofCode code], s.Lacks '\r' := by
      intro s hs
      rw [List.mem_singleton.1 hs]
      exact ⟨hcode, List.not_mem_nil⟩
    have hdrop : ∀ s ∈ extract [.ofCode code], s.crlf.dropReturns = s := fun s hs =>
      Section.dropReturns_crlf
        (Extraction.lacks_run .docstrings { g with docstring := true } hlacks s hs)
    rw [extract_crlf hlast, List.map_map]
    exact (List.map_congr_left hdrop).trans (List.map_id' _)

theorem dropReturns_run_iff_lost :
    let g : Grammar := { docstring := true }
    let code : Text := "\"d\"\n"
    '\r' ∉ code ∧
      Pass.extractDocstrings.run g [.ofCode (crlf code)] = [.ofCode "\"d\"\r\n"] ∧
      (Pass.extractDocstrings.run g [.ofCode (crlf code)]).map .dropReturns ≠
        Pass.extractDocstrings.run g [.ofCode code] := by
  intro g code
  have hcode : '\r' ∉ code := by decide
  have hnone : first? matchBetween? [] (crlf code) = none := by decide
  have hbehind : ¬ ∀ span ∈ Section.patternSpans regex code, span.stop = size code := by
    intro hlast
    obtain ⟨later, hspans, _⟩ :=
      @exists_patternSpans_eq_cons [] ⟨[], ['d'], [], ['\n']⟩ (by rfl)
    have hstop := hlast _ (hspans ▸ List.mem_cons_self)
    exact absurd hstop (by decide)
  exact ⟨hcode, extract_none hnone, mt (dropReturns_run_iff {} hcode).2.1 hbehind⟩

end Docstring

end Marginalia
