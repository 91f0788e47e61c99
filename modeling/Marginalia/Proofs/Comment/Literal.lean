import Marginalia.Proofs.Comment.Docstring
import Marginalia.Proofs.Regex.Break
import Marginalia.Proofs.Regex.Delimiter

/-! # Quoted literals

A literal is read from its opening quote to the first quote that no backslash precedes. The pattern
of docstrings matches where a line starts with a literal that another line does not go on behind
(`matchHere_pattern`), so that a search finds the first such place (`findAt_eq_first?`).
-/

namespace Marginalia.Docstring

open Text (EndsLine size isIndentChar first?)

/-- What stands before the quote that closes a literal, and what stands behind it. -/
def closing? : Text → Option (Text × Text)
  | [] => none
  | '"' :: t => some ([], t)
  | ['\\'] => none
  | '\\' :: c :: t => (closing? t).map fun p => ('\\' :: c :: p.1, p.2)
  | c :: t => (closing? t).map fun p => (c :: p.1, p.2)

/-- A literal with the indentation before it, the blanks behind it and the text from there on. -/
structure Literal where
  indentation : Text
  body : Text
  trail : Text
  rest : Text

/-- All of a literal but its closing quote. -/
def Literal.raw (l : Literal) : Text := l.indentation ++ '"' :: l.body

/-- The text that a literal is read from. -/
def Literal.written (l : Literal) : Text := l.raw ++ '"' :: (l.trail ++ l.rest)

/-- The match of a literal that stands behind some text. -/
def Literal.matchAfter (l : Literal) (before : Text) : Match where
  start := size before
  stop := size (before ++ (l.raw ++ '"' :: l.trail))
  captures := [⟨1, size before, size (before ++ l.raw)⟩]

/-- The span of a literal that stands behind some text. -/
def Literal.spanAfter (l : Literal) (before : Text) : Span where
  start := size before
  stop := size (before ++ (l.raw ++ '"' :: l.trail))
  docs := l.raw

/-- A literal with what stands before and behind its closing quote, if its last line ends there. -/
def ended? (indentation : Text) (p : Text × Text) : Option Literal :=
  if (p.2.dropWhile isIndentChar).head?.all (· == '\n') then
    some ⟨indentation, p.1, p.2.takeWhile isIndentChar, p.2.dropWhile isIndentChar⟩
  else none

/-- The literal at the start of a text. -/
def literal? (t : Text) : Option Literal :=
  match t.dropWhile isIndentChar with
  | '"' :: u => (closing? u).bind (ended? (t.takeWhile isIndentChar))
  | _ => none

/-- The match of a literal between two texts. -/
def matchBetween? (before rest : Text) : Option Match :=
  if EndsLine before then (literal? rest).map (·.matchAfter before) else none

theorem literal?_of_quote {t u : Text} (h : t.dropWhile isIndentChar = '"' :: u) :
    literal? t = (closing? u).bind (ended? (t.takeWhile isIndentChar)) := by
  simp only [literal?, h]

theorem literal?_eq_none {t : Text} (h : (t.dropWhile isIndentChar).head? ≠ some '"') :
    literal? t = none := by
  rw [literal?]
  split
  · rename_i u hu
    exact absurd (by rw [hu, List.head?_cons]) h
  · rfl

theorem closing?_plain {c : Char} (hquote : c ≠ '"') (hbackslash : c ≠ '\\') (t : Text) :
    closing? (c :: t) = (closing? t).map fun p => (c :: p.1, p.2) := by
  rw [closing?]
  · exact hquote
  · intro hc
    exact absurd hc hbackslash
  · intro d u hc
    exact absurd hc hbackslash

theorem closing?_append {s : Text} (hquote : '"' ∉ s) (hbackslash : '\\' ∉ s) (t : Text) :
    closing? (s ++ t) = (closing? t).map fun p => (s ++ p.1, p.2) := by
  induction s with
  | nil => exact Option.map_id'.symm
  | cons c s ih =>
    rw [List.mem_cons, not_or] at hquote hbackslash
    rw [List.cons_append, closing?_plain (Ne.symm hquote.1) (Ne.symm hbackslash.1),
      ih hquote.2 hbackslash.2, Option.map_map]
    rfl

/-- A backslash and the character behind it are read together. -/
theorem escapes_induction {P : Text → Prop} (nil : P []) (last : P ['\\'])
    (escaped : ∀ c t, P t → P ('\\' :: c :: t)) (plain : ∀ c t, c ≠ '\\' → P t → P (c :: t))
    (t : Text) : P t := by
  fun_induction unescape t with
  | case1 => exact nil
  | case2 => exact last
  | case3 c t ih => exact escaped c t ih
  | case4 c t hlast hescaped ih =>
    refine plain c t ?_ ih
    rintro rfl
    cases t with
    | nil => exact hlast rfl rfl
    | cons d t => exact hescaped d t rfl rfl

theorem eq_of_closing? {t body rest : Text} (h : closing? t = some (body, rest)) :
    t = body ++ '"' :: rest := by
  fun_induction closing? t generalizing body rest with
  | case1 => cases h
  | case2 t =>
    cases h
    rfl
  | case3 => cases h
  | case4 c t ih =>
    obtain ⟨⟨b, r⟩, hclosing, hp⟩ := Option.map_eq_some_iff.1 h
    cases hp
    rw [ih hclosing]
    rfl
  | case5 c t _ _ _ ih =>
    obtain ⟨⟨b, r⟩, hclosing, hp⟩ := Option.map_eq_some_iff.1 h
    cases hp
    rw [ih hclosing]
    rfl

theorem eq_of_ended? {indentation : Text} {p : Text × Text} {l : Literal}
    (h : ended? indentation p = some l) :
    l.indentation = indentation ∧ l.body = p.1 ∧ p.2 = l.trail ++ l.rest ∧
      ∀ c ∈ l.rest.head?, c = '\n' := by
  rw [ended?] at h
  split at h
  · rename_i hline
    cases h
    refine ⟨rfl, rfl, List.takeWhile_append_dropWhile.symm, fun c hc => ?_⟩
    rw [Option.mem_def.1 hc] at hline
    exact beq_iff_eq.1 hline
  · cases h

theorem eq_of_literal? {t : Text} {l : Literal} (h : literal? t = some l) :
    t = l.written ∧ l.indentation = t.takeWhile isIndentChar ∧ ∀ c ∈ l.rest.head?, c = '\n' := by
  by_cases hhead : (t.dropWhile isIndentChar).head? = some '"'
  · obtain ⟨u, hu⟩ := List.head?_eq_some_iff.1 hhead
    rw [literal?_of_quote hu, Option.bind_eq_some_iff] at h
    obtain ⟨p, hclosing, hended⟩ := h
    obtain ⟨hindentation, hbody, hrest, hline⟩ := eq_of_ended? hended
    refine ⟨?_, hindentation, hline⟩
    rw [Literal.written, Literal.raw, hindentation, hbody, ← hrest, List.append_assoc,
      List.cons_append, ← eq_of_closing? hclosing, ← hu, List.takeWhile_append_dropWhile]
  · rw [literal?_eq_none hhead] at h
    cases h

theorem matchBetween?_nil (before : Text) : matchBetween? before [] = none := by
  rw [matchBetween?, literal?_eq_none (by simp), Option.map_none, ite_self]

theorem exists_of_matchBetween? {before rest : Text} {m : Match}
    (h : matchBetween? before rest = some m) :
    ∃ l, rest = l.written ∧ EndsLine before ∧ literal? l.written = some l ∧
      m = l.matchAfter before := by
  rw [matchBetween?] at h
  split at h
  · rename_i hends
    obtain ⟨l, hl, rfl⟩ := Option.map_eq_some_iff.1 h
    obtain ⟨rfl, _⟩ := eq_of_literal? hl
    exact ⟨l, rfl, hends, hl, rfl⟩
  · cases h

section Runs

open Pattern

/-- The characters that stand for themselves. -/
def plain : CharSet := .compl (.union (.char '"') (.char '\\'))

theorem runs_quoted (t : Thread) :
    quoted.runs t = (set plain).runs t ++ ((char '\\').runs t).flatMap (set .any).runs := rfl

theorem runs_quoted_plain {t : Thread} {c : Char} {u : Text} (hrest : t.cursor.rest = c :: u)
    (hquote : c ≠ '"') (hbackslash : c ≠ '\\') : quoted.runs t = [t.skip 1] := by
  have hplain : plain.contains c = true := by simp [plain, CharSet.contains, hquote, hbackslash]
  have hchar : (char '\\').runs t = [] := by
    rw [runs_char, hrest, if_neg (by simpa using hbackslash)]
  rw [runs_quoted, hchar, runs, hrest, List.head?_cons, Option.any_some, if_pos hplain]
  rfl

theorem runs_quoted_escaped {t : Thread} {u : Text} (hrest : t.cursor.rest = '\\' :: u) :
    quoted.runs t = if u = [] then [] else [t.skip 2] := by
  have hchar : (char '\\').runs t = [t.skip 1] := by
    rw [runs_char, hrest, if_pos List.head?_cons]
  have hplain : (set plain).runs t = [] := by
    rw [runs, hrest, List.head?_cons, Option.any_some, if_neg (by decide)]
  have hnext : (t.skip 1).cursor.rest = u := by
    rw [Thread.rest_skip, hrest]
    rfl
  rw [runs_quoted, hchar, hplain, List.nil_append, List.flatMap_singleton, runs, hnext]
  cases u <;> rfl

theorem runs_quoted_eq_nil {t : Thread}
    (hrest : ∀ c ∈ t.cursor.rest.head?, c = '"') : quoted.runs t = [] := by
  rw [runs_quoted, runs_char, runs]
  cases hhead : t.cursor.rest.head? with
  | none => rfl
  | some c =>
    obtain rfl := hrest c hhead
    rfl

theorem runs_star_quoted (t : Thread) :
    (star true quoted).runs t = (quoted.runs t).flatMap (star true quoted).runs ++ [t] := by
  rw [runs_star rfl, if_pos rfl, runs_plus]

/-- What only goes on with a quote goes on at the closing one, since the body has no other place at
which a quote could be read as the end. -/
theorem flatMap_runs_quoted {g : Thread → List Thread}
    (hg : ∀ u : Thread, u.cursor.rest.head? ≠ some '"' → g u = []) (t : Thread) :
    ((star true quoted).runs t).flatMap g =
      (closing? t.cursor.rest).elim [] fun p => g (t.skip p.1.length) := by
  generalize hrest : t.cursor.rest = r
  induction r using escapes_induction generalizing t with
  | nil =>
    rw [runs_star_quoted, runs_quoted_eq_nil (by simp [hrest])]
    simpa [closing?] using hg t (by simp [hrest])
  | last =>
    rw [runs_star_quoted, runs_quoted_escaped hrest, if_pos rfl]
    simpa [closing?] using hg t (by simp [hrest])
  | escaped c u ih =>
    have hnext : (t.skip 2).cursor.rest = u := by
      rw [Thread.rest_skip, hrest]
      rfl
    have hhere : g t = [] := hg t (by simp [hrest])
    rw [runs_star_quoted, runs_quoted_escaped hrest, if_neg (List.cons_ne_nil c u),
      List.flatMap_singleton, List.flatMap_append, ih _ hnext, List.flatMap_singleton, hhere,
      List.append_nil, closing?]
    cases closing? u with
    | none => rfl
    | some p =>
      rw [Option.map_some, Option.elim_some, Option.elim_some, Thread.skip_skip, Nat.add_comm]
      rfl
  | plain c u hbackslash ih =>
    by_cases hquote : c = '"'
    · subst hquote
      rw [runs_star_quoted, runs_quoted_eq_nil (by simp [hrest]), closing?]
      simp [Thread.skip]
    · have hnext : (t.skip 1).cursor.rest = u := by
        rw [Thread.rest_skip, hrest]
        rfl
      have hhere : g t = [] := hg t (by simpa [hrest] using hquote)
      rw [runs_star_quoted, runs_quoted_plain hrest hquote hbackslash, List.flatMap_singleton,
        List.flatMap_append, ih _ hnext, List.flatMap_singleton, hhere, List.append_nil,
        closing?_plain hquote hbackslash]
      cases closing? u with
      | none => rfl
      | some p =>
        rw [Option.map_some, Option.elim_some, Option.elim_some, Thread.skip_skip, Nat.add_comm]
        rfl

theorem runs_quote (before rest : Text) (captures : List Capture) (entered : List Nat) :
    (char '"').runs ⟨.between before ('"' :: rest), captures, entered⟩ =
      [⟨.between (before ++ ['"']) rest, captures, entered⟩] := by
  rw [runs_char, Cursor.rest_between, if_pos List.head?_cons]
  exact congrArg (fun t => [t]) (Thread.skip_between before ['"'] rest captures entered)

/-- What has to stand behind a literal: its closing quote, blanks and the end of the line. -/
def ending : Pattern := .sequence [char '"', indent, look .lineEnd]

theorem runs_ending_eq_nil {t : Thread} (h : t.cursor.rest.head? ≠ some '"') :
    ending.runs t = [] := by
  rw [ending, runs_sequence_cons, runs_char, if_neg h]
  rfl

theorem runs_ending (before v : Text) (captures : List Capture) :
    ending.runs ⟨.between before ('"' :: v), captures, []⟩ =
      if (v.dropWhile isIndentChar).head?.all (· == '\n') then
        [⟨.between (before ++ '"' :: v.takeWhile isIndentChar) (v.dropWhile isIndentChar),
          captures, []⟩]
      else [] := by
  -- A line does not end before a blank.
  have hlook (t : Thread) (ht : t.cursor.rest.head?.any CharSet.indent.contains = true) :
      (Pattern.sequence [look .lineEnd]).runs t = [] := by
    obtain ⟨c, hc, hblank⟩ := (Option.any_eq_true _ _).1 ht
    have hne : Look.lineEnd.holds t.cursor = false := by
      rw [Look.holds, hc, Option.all_some, beq_eq_false_iff_ne]
      rintro rfl
      exact absurd hblank (by decide)
    rw [Pattern.sequence, runs, hne, if_neg Bool.false_ne_true]
  obtain ⟨run, tail, rfl, hrun, htail⟩ := Text.exists_leading Text.isIndentChar v
  obtain ⟨htake, hdrop⟩ := Text.takeWhile_leading hrun htail
  rw [ending, runs_sequence_cons, runs_quote, List.flatMap_singleton, runs_sequence_cons, indent,
    flatMap_runs_star hlook hrun htail rfl, Thread.skip_between, htake, hdrop, Pattern.sequence,
    runs, List.append_assoc, List.singleton_append]
  rfl

/-- The part of a literal that its docstring is made of. -/
def opening : Pattern := .sequence [indent, char '"', star true quoted]

section Opening

variable {g : Thread → List Thread}
variable (hg : ∀ u : Thread, u.cursor.rest.head? ≠ some '"' → g u = [])
variable {before t : Text} {entered : List Nat}

theorem flatMap_runs_opening_indent :
    (opening.runs ⟨.between before t, [], entered⟩).flatMap g =
      ((Pattern.sequence [char '"', star true quoted]).runs
        ⟨.between (before ++ t.takeWhile isIndentChar) (t.dropWhile isIndentChar), [],
          entered⟩).flatMap g := by
  have hnone (u : Thread) (hu : u.cursor.rest.head?.any CharSet.indent.contains = true) :
      ((Pattern.sequence [char '"', star true quoted]).runs u).flatMap g = [] := by
    have hhead : u.cursor.rest.head? ≠ some '"' := by
      intro hhead
      rw [hhead] at hu
      exact absurd hu (by decide)
    rw [runs_sequence_cons, runs_char, if_neg hhead]
    rfl
  obtain ⟨run, tail, rfl, hrun, htail⟩ := Text.exists_leading Text.isIndentChar t
  obtain ⟨htake, hdrop⟩ := Text.takeWhile_leading hrun htail
  rw [opening, runs_sequence_cons, List.flatMap_assoc, indent,
    flatMap_runs_star hnone hrun htail rfl, Thread.skip_between, htake, hdrop]

theorem flatMap_runs_opening_eq_nil (h : (t.dropWhile isIndentChar).head? ≠ some '"') :
    (opening.runs ⟨.between before t, [], entered⟩).flatMap g = [] := by
  rw [flatMap_runs_opening_indent, runs_sequence_cons, runs_char, Cursor.rest_between, if_neg h]
  rfl

include hg in
theorem flatMap_runs_opening {u : Text} (h : t.dropWhile isIndentChar = '"' :: u) :
    (opening.runs ⟨.between before t, [], entered⟩).flatMap g = (closing? u).elim [] fun p =>
      g ⟨.between (before ++ (t.takeWhile isIndentChar ++ '"' :: p.1)) ('"' :: p.2), [],
        entered⟩ := by
  rw [flatMap_runs_opening_indent, h, runs_sequence_cons, runs_quote, List.flatMap_singleton,
    Pattern.sequence, flatMap_runs_quoted hg, Cursor.rest_between]
  cases hclosing : closing? u with
  | none => rfl
  | some p =>
    rw [Option.elim_some, Option.elim_some, eq_of_closing? hclosing, Thread.skip_between]
    simp

end Opening

/-- The pattern matches a literal at the start of a line and nothing else. -/
theorem matchHere_pattern (before t : Text) :
    regex.pattern.matchHere (.between before t) = matchBetween? before t := by
  have hgroup : regex.pattern.runs (.start (.between before t)) =
      if EndsLine before then
        (opening.runs ⟨.between before t, [], [size before]⟩).flatMap fun u =>
          ending.runs (u.leave 1)
      else [] := by
    have hlook : Look.lineStart.holds (Thread.start (.between before t)).cursor = true ↔
        EndsLine before := lineStart_between
    have hpattern : regex.pattern =
        .sequence [look .lineStart, group 1 opening, char '"', indent, look .lineEnd] := rfl
    rw [hpattern, runs_sequence_cons, runs]
    simp only [hlook]
    split
    · rw [List.flatMap_singleton, runs_sequence_cons, runs, List.flatMap_map]
      rfl
    · rfl
  have hending (u : Thread) (hu : u.cursor.rest.head? ≠ some '"') : ending.runs (u.leave 1) = [] :=
    runs_ending_eq_nil (by rwa [Thread.cursor_leave])
  rw [Pattern.matchHere, hgroup, matchBetween?]
  split
  · by_cases hhead : (t.dropWhile isIndentChar).head? = some '"'
    · obtain ⟨u, hu⟩ := List.head?_eq_some_iff.1 hhead
      rw [flatMap_runs_opening hending hu, literal?_of_quote hu]
      cases closing? u with
      | none => rfl
      | some p =>
        rw [Option.elim_some, Option.bind_some, ended?]
        simp only [Thread.leave, runs_ending]
        split
        · simp [Match.ofThread, Literal.matchAfter, Literal.raw, Cursor.between]
        · rfl
    · rw [flatMap_runs_opening_eq_nil hhead, literal?_eq_none hhead]
      rfl
  · rfl

end Runs

/-! ## The first literal of some code -/

theorem findAt_eq_first? (before rest : Text) :
    regex.findAt (before ++ rest) (size before) = first? matchBetween? before rest := by
  rw [Regex.findAt_eq_first? (by rfl)]
  exact congrArg (first? · before rest) (funext₂ matchHere_pattern)

theorem find_eq_first? (code : Text) : regex.findAt code 0 = first? matchBetween? [] code :=
  findAt_eq_first? [] code

theorem findAt_size (code : Text) : regex.findAt code (size code) = none := by
  have hfind := findAt_eq_first? code []
  rwa [List.append_nil, first?, matchBetween?_nil] at hfind

theorem patternSpans_eq_nil {code : Text} (h : first? matchBetween? [] code = none) :
    Section.patternSpans regex code = [] := by
  have hnext : regex.nextMatch code 0 none = none := by rw [Regex.nextMatch, find_eq_first?, h]
  rw [Section.patternSpans, Regex.matchesIn, Regex.matchesFrom, hnext]
  rfl

/-- The first literal makes the first span, and the only one if nothing stands behind it. -/
theorem exists_patternSpans_eq_cons {before : Text} {l : Literal}
    (h : first? matchBetween? [] (before ++ l.written) = some (l.matchAfter before)) :
    ∃ later, Section.patternSpans regex (before ++ l.written) = l.spanAfter before :: later ∧
      (l.rest = [] → later = []) := by
  generalize hcode : before ++ l.written = code at h
  rw [← find_eq_first?] at h
  have hlt : (l.matchAfter before).start < (l.matchAfter before).stop := by
    have hquote := Char.utf8Size_pos '"'
    simp only [Literal.matchAfter, Text.size_append, Text.size_cons]
    omega
  have hgroup : (l.matchAfter before).group? code 1 = some l.raw := by
    have hslice := Text.slice_size_append before l.raw ('"' :: (l.trail ++ l.rest))
    rw [← Text.size_append, ← Literal.written, hcode] at hslice
    exact congrArg some hslice
  have hspan : Section.spanOf? code (l.matchAfter before) = some (l.spanAfter before) := by
    have hne : (l.matchAfter before).isEmpty = false := by
      rw [Match.isEmpty, beq_eq_false_iff_ne]
      omega
    rw [Section.spanOf?, hgroup, hne, if_neg Bool.false_ne_true]
    rfl
  have hmatches : regex.matchesIn code = l.matchAfter before ::
      regex.matchesFrom code (code.length + 1) (l.matchAfter before).stop
        (some (l.matchAfter before).stop) := by
    rw [Regex.matchesIn, Regex.matchesFrom, Regex.nextMatch_of_findAt h hlt]
  refine ⟨(regex.matchesFrom code (code.length + 1) (l.matchAfter before).stop
    (some (l.matchAfter before).stop)).filterMap (Section.spanOf? code), ?_, fun hrest => ?_⟩
  · have hspans : Section.patternSpans regex code =
        (regex.matchesIn code).filterMap (Section.spanOf? code) := rfl
    rw [hspans, hmatches, List.filterMap_cons_some hspan]
  · have hstop : (l.matchAfter before).stop = size code := by
      rw [← hcode, Literal.written, hrest, List.append_nil]
      rfl
    rw [hstop, Regex.matchesFrom, Regex.nextMatch, findAt_size]
    rfl

end Marginalia.Docstring
