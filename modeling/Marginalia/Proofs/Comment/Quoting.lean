import Marginalia.Proofs.Comment.Extraction
import Marginalia.Proofs.Comment.Literal
import Mathlib.Data.List.TakeWhile

/-! # What is quoted comes back

A text written as a literal, with a backslash before each quote and each backslash, is read back as
it was: the first literal of some code becomes the documentation that it quotes (`extract_quoted`).
-/

namespace Marginalia.Docstring

open Text (EndsLine lines size isIndentChar first?)

/-- A text as it is written inside a literal. -/
def escape (s : Text) : Text := s.flatMap fun c => if c = '\\' ∨ c = '"' then ['\\', c] else [c]

theorem escape_cons_of_special {c : Char} (h : c = '\\' ∨ c = '"') (s : Text) :
    escape (c :: s) = '\\' :: c :: escape s := by
  rw [escape, List.flatMap_cons, if_pos h]
  rfl

theorem escape_cons_of_plain {c : Char} (h : ¬ (c = '\\' ∨ c = '"')) (s : Text) :
    escape (c :: s) = c :: escape s := by
  rw [escape, List.flatMap_cons, if_neg h]
  rfl

theorem unescape_cons {c : Char} (h : c ≠ '\\') (t : Text) :
    unescape (c :: t) = c :: unescape t := by
  rw [unescape]
  · intro hc
    exact absurd hc h
  · intro d u hc
    exact absurd hc h

theorem unescape_append {s : Text} (h : '\\' ∉ s) (t : Text) :
    unescape (s ++ t) = s ++ unescape t := by
  induction s with
  | nil => rfl
  | cons c s ih =>
    rw [List.mem_cons, not_or] at h
    rw [List.cons_append, unescape_cons (Ne.symm h.1), ih h.2, List.cons_append]

theorem unescape_escape (s : Text) : unescape (escape s) = s := by
  induction s with
  | nil => rfl
  | cons c s ih =>
    by_cases hc : c = '\\' ∨ c = '"'
    · rw [escape_cons_of_special hc, unescape, ih]
    · rw [escape_cons_of_plain hc, unescape_cons fun h => hc (.inl h), ih]

/-- The quotes of an escaped text do not close the literal. -/
theorem closing?_escape (s t : Text) : closing? (escape s ++ '"' :: t) = some (escape s, t) := by
  induction s with
  | nil => rfl
  | cons c s ih =>
    by_cases hc : c = '\\' ∨ c = '"'
    · rw [escape_cons_of_special hc, List.cons_append, List.cons_append, closing?, ih]
      rfl
    · rw [not_or] at hc
      rw [escape_cons_of_plain (not_or.2 hc), List.cons_append, closing?_plain hc.2 hc.1, ih]
      rfl

theorem dropQuote_append {s : Text} (h : '"' ∉ s) (t : Text) :
    dropQuote (s ++ '"' :: t) = s ++ t := by
  induction s with
  | nil => rfl
  | cons c s ih =>
    rw [List.mem_cons, not_or] at h
    rw [List.cons_append, dropQuote, if_neg (Ne.symm h.1), ih h.2, List.cons_append]

/-- Only the body of a literal has anything to resolve. -/
theorem Literal.unquote_raw {l : Literal} (h : ∀ c ∈ l.indentation, isIndentChar c = true) :
    unquote l.raw = l.indentation ++ unescape l.body := by
  have hmem {c : Char} (hc : isIndentChar c = false) : c ∉ l.indentation := by
    intro hmem
    rw [h c hmem] at hc
    cases hc
  have hhead : l.raw.dropWhile (· == '\n') = l.raw := by
    rw [raw]
    cases hindentation : l.indentation with
    | nil => rfl
    | cons c run =>
      have hc : c ≠ '\n' := by
        rintro rfl
        exact hmem (by rfl : isIndentChar '\n' = false) (hindentation ▸ List.mem_cons_self)
      rw [List.cons_append, List.dropWhile_cons_of_neg (by simpa using hc)]
  rw [unquote, hhead, raw, dropQuote_append (hmem rfl), unescape_append (hmem rfl)]

theorem literal?_escape {indentation : Text} (h : ∀ c ∈ indentation, isIndentChar c = true)
    (s rest : Text) :
    literal? (indentation ++ '"' :: (escape s ++ '"' :: '\n' :: rest)) =
      some ⟨indentation, escape s, [], '\n' :: rest⟩ := by
  have hquote : ('"' :: (escape s ++ '"' :: '\n' :: rest)).head?.any isIndentChar = false := rfl
  obtain ⟨htake, hdrop⟩ := Text.takeWhile_leading h hquote
  rw [literal?_of_quote hdrop, closing?_escape, htake]
  rfl

/-- Where no line of a text opens a literal, none is found in it. -/
theorem matchBetween?_of_lines {before : Text} (hends : EndsLine before)
    (hlines : ∀ line ∈ lines before, (line.dropWhile isIndentChar).head? ≠ some '"') (rest : Text) :
    ∀ s t, before = s ++ t → t ≠ [] → matchBetween? s (t ++ rest) = none := by
  rintro s t rfl ht
  rw [matchBetween?]
  split
  · rename_i hs
    obtain ⟨line, more, hmore⟩ := List.exists_cons_of_ne_nil (Text.lines_ne_nil ht)
    obtain ⟨u, rfl, _, _, hu⟩ := Text.exists_of_lines_eq_cons hmore
    have hline : EndsLine line := by
      by_cases hnil : u = []
      · subst hnil
        rw [List.append_nil] at hends
        exact hends.of_append
      · exact hu hnil
    have hmem : line ∈ lines (s ++ (line ++ u)) := by
      rw [Text.lines_append hs, hmore]
      exact List.mem_append_right _ List.mem_cons_self
    -- The newline keeps the search for a quote within the line.
    have hdrop : line.dropWhile isIndentChar ≠ [] := by
      rw [Ne, List.dropWhile_eq_nil_iff]
      intro hall
      have hne : line ≠ [] := Text.ne_nil_of_mem_lines hmem
      have hlast := hall _ (List.getLast_mem hne)
      rw [hline _ (List.getLast?_eq_some_getLast hne)] at hlast
      exact absurd hlast (by decide)
    have hopens := hlines line hmem
    obtain ⟨c, more, hcons⟩ := List.exists_cons_of_ne_nil hdrop
    rw [hcons] at hopens
    rw [literal?_eq_none, Option.map_none]
    rwa [List.append_assoc, List.dropWhile_append, hcons, if_neg (by simp), List.cons_append]
  · rfl

/-- Taking docstrings out undoes quoting. -/
theorem extract_quoted (g : Grammar) {before indentation : Text} (s rest : Text)
    (hends : EndsLine before)
    (hlines : ∀ line ∈ lines before, (line.dropWhile isIndentChar).head? ≠ some '"')
    (hindentation : ∀ c ∈ indentation, isIndentChar c = true) :
    ∃ more, Pass.extractDocstrings.run { g with docstring := true }
        [.ofCode (before ++ (indentation ++ '"' :: (escape s ++ '"' :: '\n' :: rest)))] =
      .ofCode before :: { docs := indentation ++ s, stripped := true } :: more := by
  have hliteral := literal?_escape hindentation s rest
  generalize hl : (⟨indentation, escape s, [], '\n' :: rest⟩ : Literal) = l at hliteral
  obtain ⟨hwritten, _⟩ := eq_of_literal? hliteral
  have hfirst : first? matchBetween? [] (before ++ l.written) = some (l.matchAfter before) := by
    rw [Text.first?_append (by simpa using matchBetween?_of_lines hends hlines l.written)]
    refine Text.first?_of_some ?_
    rw [List.nil_append, matchBetween?, if_pos hends, ← hwritten, hliteral]
    rfl
  obtain ⟨later, hspans, _⟩ := exists_patternSpans_eq_cons hfirst
  have hdocs : unquote l.raw = indentation ++ s := by
    subst hl
    rw [Literal.unquote_raw hindentation, unescape_escape]
  rw [hwritten]
  change ∃ more, extract [.ofCode (before ++ l.written)] = _
  rw [extract_eq, List.flatMap_singleton, Section.ofCode, hspans, Section.partsBy, Span.withGaps]
  obtain ⟨gap, gaps, hgaps⟩ : ∃ gap gaps,
      Span.gaps (before ++ l.written) (l.spanAfter before :: later) = gap :: gaps := by
    cases later <;> exact ⟨_, _, rfl⟩
  rw [hgaps, List.zip_cons_cons, List.flatMap_cons, Section.spanParts, List.cons_append]
  refine ⟨_, congrArg₂ List.cons ?_ (congrArg (List.cons · _) ?_)⟩
  · rw [Literal.spanAfter, Text.upTo_size_append]
    rfl
  · rw [Literal.spanAfter, hdocs]

theorem extract_quoted_clojure :
    let before : Text := "(defn f\n"
    let indentation : Text := "  "
    let s : Text := "Adds \"one\",\nnot \\."
    let rest : Text := "  [x])\n"
    EndsLine before ∧
      (∀ line ∈ lines before, (line.dropWhile isIndentChar).head? ≠ some '"') ∧
      (∀ c ∈ indentation, isIndentChar c = true) ∧
      ∃ more, Pass.extractDocstrings.run { docstring := true }
          [.ofCode (before ++ (indentation ++ '"' :: (escape s ++ '"' :: '\n' :: rest)))] =
        .ofCode before :: { docs := "  Adds \"one\",\nnot \\.", stripped := true } :: more := by
  intro before indentation s rest
  have hends : EndsLine before := by decide
  have hlines : ∀ line ∈ lines before, (line.dropWhile isIndentChar).head? ≠ some '"' := by decide
  have hindentation : ∀ c ∈ indentation, isIndentChar c = true := List.all_eq_true.1 (by rfl)
  exact ⟨hends, hlines, hindentation,
    extract_quoted {} s rest hends hlines hindentation⟩

end Marginalia.Docstring
