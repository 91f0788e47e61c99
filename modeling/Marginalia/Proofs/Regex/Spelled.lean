import Marginalia.Comment.Block

/-! # Patterns that are texts

A pattern without operators, in which any punctuation may have a backslash before it, is the text
that it matches. It stays that text between the parts that delimiters of paired comments have around
them (`pattern_of_compile_opening`, `pattern_of_compile_closing`).
-/

namespace Marginalia.Regex

/-- Whether a character of a pattern does anything else than stand for itself. -/
def isOperator (c : Char) : Bool :=
  match c with
  | '*' | '+' | '?' | '\x7b' | '(' | ')' | '[' | '.' | '^' | '$' | '\\' | '|' => true
  | _ => false

/-- The text that a pattern is, unless there is more to it. -/
def spelled? : Text → Option Text
  | [] => some []
  | '\\' :: c :: pattern => if isEscapable c then (spelled? pattern).map (c :: ·) else none
  | c :: pattern => if isOperator c then none else (spelled? pattern).map (c :: ·)

/-! ## Reading -/

/-- The flags in force in the pattern of a delimiter, which starts with their directive. -/
def multiline : Flags := { multiline := true }

section Steps

variable {fuel : Nat} {items : List Item} {rest : Text} {groups : Nat}

theorem run_directive :
    (readSequence (fuel + 2) []).run { rest := '(' :: '?' :: 'm' :: ')' :: rest } =
      (readSequence (fuel + 1) [⟨none, 0⟩]).run { rest, flags := multiline } := by
  rfl

theorem run_caret :
    (readSequence (fuel + 1) items).run { rest := '^' :: rest, flags := multiline } =
      (readSequence fuel (⟨some (.look .lineStart), 0⟩ :: items)).run
        { rest, flags := multiline } := by
  rfl

theorem run_group {item : Item} {s : Source}
    (h : (readGroup fuel).run { rest, flags := multiline, groups } = some (item, s)) :
    (readSequence (fuel + 1) items).run { rest := '(' :: rest, flags := multiline, groups } =
      (readSequence fuel (item :: items)).run s := by
  change ((readGroup fuel).run { rest, flags := multiline, groups }).bind
    (fun read => (readSequence fuel (read.1 :: items)).run read.2) = _
  rw [h, Option.bind_some]

theorem run_indentation (hfuel : 16 ≤ fuel) :
    (readGroup fuel).run
        { rest := '[' :: ' ' :: '\\' :: 't' :: ']' :: '*' :: ')' :: rest, flags := multiline } =
      some (⟨some (.capture 1 (.repeated true 0 none (.set .indent))), 4⟩,
        { rest, flags := multiline, groups := 1 }) := by
  obtain ⟨fuel, rfl⟩ := Nat.exists_eq_add_of_le' hfuel
  rfl

/-- The end of a sequence, which is that of the pattern or of a group without alternatives. -/
theorem run_end (h : rest.head?.all (· == ')') = true) :
    (readSequence (fuel + 1) items).run { rest, flags := multiline, groups } =
      some (sequenceOf items, { rest, flags := multiline, groups }) := by
  cases rest with
  | nil => rfl
  | cons c rest =>
    obtain rfl : c = ')' := by simpa using h
    rfl

theorem run_plain {c : Char} (h : isOperator c = false) :
    (readSequence (fuel + 1) items).run { rest := c :: rest, flags := multiline, groups } =
      (readSequence fuel (⟨some (.literal [c]), 0⟩ :: items)).run
        { rest, flags := multiline, groups } := by
  have hpeek : (skipSpace >>= fun _ => peek).run { rest := c :: rest, flags := multiline, groups } =
      some (some c, { rest := c :: rest, flags := multiline, groups }) := rfl
  rw [readSequence, ← bind_assoc, StateT.run_bind, hpeek, Option.bind_eq_bind, Option.bind_some]
  split <;> cases ‹some c = _›
  · cases h
  · cases h
  · rw [StateT.run_bind]
    split
    case h_11 => rfl
    all_goals cases h

theorem run_escaped {c : Char} (h : isEscapable c = true) :
    (readSequence (fuel + 1) items).run
        { rest := '\\' :: c :: rest, flags := multiline, groups } =
      (readSequence fuel (⟨some (.literal [c]), 0⟩ :: items)).run
        { rest, flags := multiline, groups } := by
  have hescape : readEscape.run { rest := c :: rest, flags := multiline, groups } =
      some (.char c, { rest := rest, flags := multiline, groups }) := by
    have htake : take.run { rest := c :: rest, flags := multiline, groups } =
      some (c, { rest, flags := multiline, groups }) := rfl
    rw [readEscape, StateT.run_bind, htake, Option.bind_eq_bind, Option.bind_some]
    dsimp only
    split
    case h_22 =>
      rw [if_pos h]
      rfl
    all_goals cases h
  have hbackslash : backslash.run { rest := c :: rest, flags := multiline, groups } =
      some (.literal [c], { rest, flags := multiline, groups }) := by
    rw [backslash, StateT.run_bind, hescape]
    rfl
  change (backslash.run { rest := c :: rest, flags := multiline, groups }).bind (fun read =>
    (readSequence fuel (⟨some read.1, 0⟩ :: items)).run read.2) = _
  rw [hbackslash]
  rfl

/-- The items of a text, character by character. -/
def letters (text : Text) : List Item := text.map fun c => ⟨some (.literal [c]), 0⟩

theorem length_le_of_spelled? {pattern text : Text} (h : spelled? pattern = some text) :
    text.length ≤ pattern.length := by
  fun_induction spelled? pattern generalizing text with
  | case1 =>
    cases h
    exact Nat.le_refl _
  | case2 c pattern _ ih =>
    obtain ⟨text, htext, rfl⟩ := Option.map_eq_some_iff.1 h
    have hle := ih htext
    simp only [List.length_cons]
    omega
  | case3 => cases h
  | case4 => cases h
  | case5 c pattern _ _ ih =>
    obtain ⟨text, htext, rfl⟩ := Option.map_eq_some_iff.1 h
    exact Nat.succ_le_succ (ih htext)

theorem run_spelled {pattern text : Text} (h : spelled? pattern = some text) :
    (readSequence (fuel + text.length) items).run
        { rest := pattern ++ rest, flags := multiline, groups } =
      (readSequence fuel ((letters text).reverse ++ items)).run
        { rest, flags := multiline, groups } := by
  fun_induction spelled? pattern generalizing text items with
  | case1 =>
    cases h
    rfl
  | case2 c pattern hc ih =>
    obtain ⟨text, htext, rfl⟩ := Option.map_eq_some_iff.1 h
    rw [List.length_cons, ← Nat.add_assoc, List.cons_append, List.cons_append, run_escaped hc,
      ih htext]
    simp [letters]
  | case3 c pattern hc => cases h
  | case4 c pattern _ hc => cases h
  | case5 c pattern _ hc ih =>
    obtain ⟨text, htext, rfl⟩ := Option.map_eq_some_iff.1 h
    rw [List.length_cons, ← Nat.add_assoc, List.cons_append, run_plain (by simpa using hc),
      ih htext]
    simp [letters]

theorem run_alternatives {e : Nested Expr} {s : Source} (hrest : rest.head?.all (· == ')') = true)
    (h : (readSequence fuel []).run s = some (e, { rest, flags := multiline, groups })) :
    (readAlternatives (fuel + 1)).run s = some ([e], { rest, flags := multiline, groups }) := by
  rw [readAlternatives, StateT.run_bind, h, Option.bind_eq_bind, Option.bind_some]
  cases rest with
  | nil => rfl
  | cons c rest =>
    obtain rfl : c = ')' := by simpa using hrest
    rfl

theorem run_enclosed {pattern text : Text} (h : spelled? pattern = some text)
    (hfuel : text.length + 3 ≤ fuel) :
    (readGroup fuel).run
        { rest := '?' :: ':' :: (pattern ++ ')' :: rest), flags := multiline, groups } =
      some (⟨some (sequenceOf (letters text).reverse).value,
        (sequenceOf (letters text).reverse).depth + 1⟩, { rest, flags := multiline, groups }) := by
  obtain ⟨fuel, rfl⟩ : ∃ more, fuel = more + 1 + text.length + 2 :=
    ⟨fuel - text.length - 3, by omega⟩
  have hsequence : (readSequence (fuel + 1 + text.length) []).run
      { rest := pattern ++ ')' :: rest, flags := multiline, groups } =
        some (sequenceOf (letters text).reverse,
          { rest := ')' :: rest, flags := multiline, groups }) := by
    rw [run_spelled h, List.append_nil]
    exact run_end rfl
  have hopening (rest : Text) :
      readOpening.run { rest := '?' :: ':' :: rest, flags := multiline, groups } =
        some (.plain multiline, { rest, flags := multiline, groups }) := by
    rfl
  have hflags (s : Source) : flags.run s = some (s.flags, s) := rfl
  rw [readGroup, StateT.run_bind, hflags, Option.bind_eq_bind, Option.bind_some,
    StateT.run_bind, hopening, Option.bind_eq_bind, Option.bind_some]
  dsimp only
  rw [StateT.run_bind]
  change ((readAlternatives (fuel + 1 + text.length + 1)).run
    { rest := pattern ++ ')' :: rest, flags := multiline, groups }).bind _ = _
  rw [run_alternatives rfl hsequence]
  rfl

end Steps

/-! ## Expressions -/

theorem foldr_prepend_letters {text : Text} (h : text ≠ []) :
    ((text.map fun c => Expr.literal [c]).flatMap Expr.parts).foldr Expr.prepend [] =
      [.literal text] := by
  induction text with
  | nil => exact absurd rfl h
  | cons c text ih =>
    cases text with
    | nil => rfl
    | cons d text =>
      rw [List.map_cons, List.flatMap_cons, List.foldr_append, ih (List.cons_ne_nil d text)]
      rfl

theorem inSequence_letters {text : Text} (h : text ≠ []) :
    Expr.inSequence (text.map fun c => .literal [c]) = .literal text := by
  rw [Expr.inSequence, foldr_prepend_letters h]

theorem filterMap_letters (text : Text) :
    (letters text).filterMap (·.value) = text.map fun c => .literal [c] := by
  rw [letters, List.filterMap_map, ← List.filterMap_eq_map]
  rfl

theorem depth_of_mem_letters {text : Text} {item : Item} (h : item ∈ letters text) :
    item.depth = 0 := by
  obtain ⟨c, _, rfl⟩ := List.mem_map.1 h
  rfl

theorem depthOf_le {α : Type} (xs : List (Nested α)) : depthOf xs ≤ deepest xs + 1 := by
  match xs with
  | [] => exact Nat.zero_le 1
  | [x] =>
    change x.depth ≤ max 0 x.depth + 1
    omega
  | x :: y :: rest => exact Nat.le_refl _

theorem deepest_eq_zero {α : Type} {xs : List (Nested α)} (h : ∀ x ∈ xs, x.depth = 0) :
    deepest xs = 0 := by
  rw [deepest]
  induction xs with
  | nil => rfl
  | cons x xs ih =>
    rw [List.forall_mem_cons] at h
    rw [List.foldl_cons, h.1]
    exact ih h.2

theorem read?_closingSource {stop text : Text} (h : spelled? stop = some text) (hne : text ≠ []) :
    read? (BlockComment.closingSource stop) = some (.literal text, []) := by
  have hsource : BlockComment.closingSource stop = '(' :: '?' :: 'm' :: ')' :: (stop ++ []) := by
    rw [List.append_nil]
    rfl
  obtain ⟨fuel, hfuel⟩ : ∃ fuel,
      4 * (BlockComment.closingSource stop).length + 4 = fuel + text.length + 2 + 1 := by
    have hle := length_le_of_spelled? h
    refine ⟨4 * (BlockComment.closingSource stop).length + 1 - text.length, ?_⟩
    simp only [hsource, List.length_cons, List.length_append, List.length_nil]
    omega
  have hsequence : (readSequence (fuel + text.length + 2) []).run
      { rest := BlockComment.closingSource stop } =
        some (sequenceOf ((letters text).reverse ++ [⟨none, 0⟩]),
          { rest := [], flags := multiline }) := by
    rw [hsource, run_directive, Nat.add_right_comm, run_spelled h, run_end rfl]
  have hvalue : (sequenceOf ((letters text).reverse ++ [⟨none, 0⟩])).value = .literal text := by
    simp only [sequenceOf, List.reverse_append, List.reverse_reverse, List.reverse_singleton,
      List.singleton_append, List.filterMap_cons, filterMap_letters, inSequence_letters hne]
  have hdepth : (sequenceOf ((letters text).reverse ++ [⟨none, 0⟩])).depth ≤ depthLimit := by
    have hzero : ∀ item ∈ (letters text).reverse ++ [⟨none, 0⟩], item.depth = 0 := by
      intro item hitem
      rcases List.mem_append.1 hitem with hitem | hitem
      · exact depth_of_mem_letters (List.mem_reverse.1 hitem)
      · rw [List.mem_singleton.1 hitem]
    have hle := depthOf_le ((letters text).reverse ++ [⟨none, 0⟩])
    rw [deepest_eq_zero hzero] at hle
    exact Nat.le_trans hle (by decide)
  rw [read?, hfuel, run_alternatives rfl hsequence]
  change (if _ then _ else _) = _
  rw [if_pos (by simpa [choiceOf, depthOf] using hdepth)]
  exact congrArg (fun e => some (e, _)) hvalue

theorem read?_openingSource {start text : Text} (h : spelled? start = some text) (hne : text ≠ []) :
    read? (BlockComment.openingSource start) =
      some (.sequence [.look .lineStart, .capture 1 (.repeated true 0 none (.set .indent)),
        .literal text], []) := by
  have hsource : BlockComment.openingSource start =
      '(' :: '?' :: 'm' :: ')' :: '^' :: '(' :: '[' :: ' ' :: '\\' :: 't' :: ']' :: '*' :: ')' ::
        '(' :: '?' :: ':' :: (start ++ ')' :: []) := by
    rfl
  obtain ⟨fuel, hfuel⟩ : ∃ fuel,
      4 * (BlockComment.openingSource start).length + 4 = fuel + text.length + 25 := by
    have hle := length_le_of_spelled? h
    refine ⟨4 * (BlockComment.openingSource start).length - text.length - 21, ?_⟩
    simp only [hsource, List.length_cons, List.length_append, List.length_nil]
    omega
  have hinner : (sequenceOf (letters text).reverse).value = .literal text := by
    rw [sequenceOf, List.reverse_reverse, filterMap_letters, inSequence_letters hne]
  have hdepth : (sequenceOf (letters text).reverse).depth ≤ 1 := by
    have hle := depthOf_le (letters text).reverse
    rwa [deepest_eq_zero fun _ hitem => depth_of_mem_letters (List.mem_reverse.1 hitem)] at hle
  have hsequence : (readSequence (fuel + text.length + 24) []).run
      { rest := BlockComment.openingSource start } =
        some (sequenceOf [⟨some (.literal text), (sequenceOf (letters text).reverse).depth + 1⟩,
          ⟨some (.capture 1 (.repeated true 0 none (.set .indent))), 4⟩,
          ⟨some (.look .lineStart), 0⟩, ⟨none, 0⟩],
          { rest := [], flags := multiline, groups := 1 }) := by
    rw [hsource, run_directive, run_caret, run_group (run_indentation (by omega)),
      run_group (run_enclosed h (by omega)), hinner]
    exact run_end rfl
  rw [read?, hfuel, run_alternatives rfl hsequence]
  change (if _ then _ else _) = _
  rw [if_pos]
  · rfl
  · rw [Bool.and_eq_true_iff]
    refine ⟨rfl, decide_eq_true ?_⟩
    change max (max (max (max 0 ((sequenceOf (letters text).reverse).depth + 1)) 4) 0) 0 + 1 ≤ 250
    omega

/-! ## Delimiters -/

variable {re : Regex}

theorem exists_of_compile {source : Text} (h : compile source = .ok re) :
    ∃ e names, read? source = some (e, names) ∧ re.pattern = e.toPattern := by
  rw [compile] at h
  split at h
  · rename_i found hfound
    cases h
    rw [compile?] at hfound
    obtain ⟨⟨e, names⟩, hread, hfits⟩ := Option.bind_eq_some_iff.1 hfound
    dsimp only at hfits
    split at hfits
    · cases hfits
      exact ⟨e, names, hread, rfl⟩
    · cases hfits
  · cases h

theorem pattern_of_compile_opening {start text : Text} (h : spelled? start = some text)
    (hne : text ≠ []) (hre : compile (BlockComment.openingSource start) = .ok re) :
    re.pattern = .sequence (.look .lineStart :: .group 1 .indent :: text.map .char) := by
  obtain ⟨e, names, hread, hpattern⟩ := exists_of_compile hre
  rw [read?_openingSource h hne] at hread
  cases hread
  rw [hpattern, Expr.toPattern]
  simp only [Expr.piecePatterns, List.append_nil]
  rfl

theorem pattern_of_compile_closing {stop text : Text} (h : spelled? stop = some text)
    (hne : text ≠ []) (hre : compile (BlockComment.closingSource stop) = .ok re) :
    re.pattern = .sequence (text.map .char) := by
  obtain ⟨e, names, hread, hpattern⟩ := exists_of_compile hre
  rw [read?_closingSource h hne] at hread
  cases hread
  rw [hpattern, Expr.toPattern]

end Marginalia.Regex
