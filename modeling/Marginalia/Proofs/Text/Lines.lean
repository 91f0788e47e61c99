import Marginalia.Text.Lines

/-! # Whole lines

A text that is empty or ends in a newline ends a line: put before another text, it leaves the lines
of both as they are. The lines that are not blank are those a reader sees.
-/

namespace Marginalia.Text

/-- Nothing is left of a line that is still open at the end. -/
def EndsLine (t : Text) : Prop := ∀ c ∈ t.getLast?, c = '\n'

theorem endsLine_nil : EndsLine [] := by
  intro c hc
  cases hc

theorem EndsLine.append {s t : Text} (hs : EndsLine s) (ht : EndsLine t) : EndsLine (s ++ t) := by
  intro c hc
  rw [List.getLast?_append] at hc
  cases hlast : t.getLast? with
  | none =>
    rw [hlast, Option.none_or] at hc
    exact hs c hc
  | some d =>
    rw [hlast, Option.some_or] at hc
    exact ht c (hlast ▸ hc)

theorem EndsLine.append_left {t : Text} (ht : EndsLine t) (hne : t ≠ []) (s : Text) :
    EndsLine (s ++ t) := by
  obtain ⟨d, hd⟩ := Option.ne_none_iff_exists'.1 (mt List.getLast?_eq_none_iff.1 hne)
  intro c hc
  rw [List.getLast?_append, hd, Option.some_or] at hc
  exact ht c (hd ▸ hc)

theorem EndsLine.of_append {s t : Text} (h : EndsLine (s ++ t)) : EndsLine t := by
  intro c hc
  refine h c ?_
  rw [List.getLast?_append, Option.mem_def.1 hc, Option.some_or]
  rfl

theorem endsLine_newline (t : Text) : EndsLine (t ++ ['\n']) := by
  intro c hc
  simpa using hc.symm

theorem endsLine_iff {t : Text} : EndsLine t ↔ t = [] ∨ t.getLast? = some '\n' := by
  constructor
  · intro h
    cases hlast : t.getLast? with
    | none => exact .inl (List.getLast?_eq_none_iff.1 hlast)
    | some c => exact .inr (congrArg some (h c hlast))
  · rintro (rfl | h) c hc
    · cases hc
    · exact Option.some.inj (hc.symm.trans h)

instance (t : Text) : Decidable (EndsLine t) := decidable_of_iff' _ endsLine_iff

theorem lines_ne_nil {t : Text} (h : t ≠ []) : lines t ≠ [] := by
  intro hlines
  have hflat := flatten_lines t
  rw [hlines] at hflat
  exact h hflat.symm

theorem lines_append {s : Text} (hs : EndsLine s) (t : Text) :
    lines (s ++ t) = lines s ++ lines t := by
  induction s with
  | nil => rfl
  | cons c s ih =>
    have ih := ih (EndsLine.of_append (s := [c]) hs)
    rw [List.cons_append, lines, lines]
    split
    · rw [ih, List.cons_append]
    · rename_i hc
      -- The character is not the last one, so the line it opens goes on in `s`.
      have hne : s ≠ [] := by
        rintro rfl
        exact hc (hs c rfl)
      obtain ⟨line, rest, hline⟩ := List.exists_cons_of_ne_nil (lines_ne_nil hne)
      rw [ih, hline]
      rfl

/-- The first line of a text, and the text that the other lines are the lines of. -/
theorem exists_of_lines_eq_cons {t line : Text} {rest : List Text} (h : lines t = line :: rest) :
    ∃ u, t = line ++ u ∧ rest = lines u ∧ lines line = [line] ∧ (u ≠ [] → EndsLine line) := by
  suffices hsplit : ∃ u, t = line ++ u ∧ rest = lines u ∧ (u ≠ [] → EndsLine line) by
    obtain ⟨u, rfl, rfl, hend⟩ := hsplit
    refine ⟨u, rfl, rfl, ?_, hend⟩
    by_cases hu : u = []
    · subst hu
      simpa using h
    · rw [lines_append (hend hu)] at h
      exact List.append_cancel_right h
  induction t generalizing line with
  | nil => cases h
  | cons c t ih =>
    rw [lines] at h
    split at h
    · rename_i hc
      cases h
      exact ⟨t, rfl, rfl, fun _ => hc ▸ endsLine_newline []⟩
    · split at h
      · rename_i hnil
        cases h
        have ht : t = [] := Classical.not_not.1 fun hne => lines_ne_nil hne hnil
        exact ⟨[], by rw [ht]; rfl, rfl, fun hne => absurd rfl hne⟩
      · rename_i first others hfirst
        cases h
        obtain ⟨u, rfl, hothers, hend⟩ := ih hfirst
        refine ⟨u, rfl, hothers, fun hu d hd => hend hu d ?_⟩
        have hne : first ≠ [] := ne_nil_of_mem_lines (hfirst ▸ List.mem_cons_self)
        rwa [List.getLast?_cons_of_ne_nil hne] at hd

/-- The first lines of a text are the lines of what they make up. -/
theorem exists_of_lines_eq_append {t : Text} {xs ys : List Text} (h : lines t = xs ++ ys) :
    ∃ u, t = xs.flatten ++ u ∧ lines u = ys ∧ lines xs.flatten = xs ∧
      (u ≠ [] → EndsLine xs.flatten) := by
  induction xs generalizing t with
  | nil => exact ⟨t, rfl, h, rfl, fun _ => endsLine_nil⟩
  | cons x xs ih =>
    obtain ⟨v, rfl, hv, hx, hends⟩ := exists_of_lines_eq_cons h
    obtain ⟨u, rfl, hu, hxs, hends'⟩ := ih hv.symm
    refine ⟨u, (List.append_assoc _ _ _).symm, hu, ?_, ?_⟩
    · by_cases hne : xs.flatten = []
      · rw [hne, lines_nil] at hxs
        rw [← hxs, List.flatten_singleton, hx]
      · rw [List.flatten_cons, lines_append (hends (List.append_ne_nil_of_left_ne_nil hne u)), hx,
          hxs]
        rfl
    · intro hne
      exact (hends (List.append_ne_nil_of_right_ne_nil _ hne)).append (hends' hne)

/-- A text whose lines fall into two parts is made up of two texts with these lines. -/
theorem lines_parts {t : Text} {xs ys : List Text} (h : lines t = xs ++ ys) :
    t = xs.flatten ++ ys.flatten ∧ lines xs.flatten = xs ∧ lines ys.flatten = ys := by
  obtain ⟨u, rfl, rfl, hxs, _⟩ := exists_of_lines_eq_append h
  rw [flatten_lines]
  exact ⟨rfl, hxs, rfl⟩

theorem lines_newline {row : Text} (h : '\n' ∉ row) (t : Text) :
    lines (row ++ '\n' :: t) = (row ++ ['\n']) :: lines t := by
  induction row with
  | nil => exact if_pos rfl
  | cons c row ih =>
    rw [List.mem_cons, not_or] at h
    rw [List.cons_append, lines, if_neg (Ne.symm h.1), ih h.2]
    rfl

theorem lines_row {row : Text} (h : '\n' ∉ row) (hne : row ≠ []) : lines row = [row] := by
  induction row with
  | nil => exact absurd rfl hne
  | cons c row ih =>
    rw [List.mem_cons, not_or] at h
    rw [lines, if_neg (Ne.symm h.1)]
    by_cases hrow : row = []
    · subst hrow
      rfl
    · rw [ih h.2 hrow]

/-- A text is a row, or a row, a newline and a text. -/
theorem rows_induction {P : Text → Prop} (row : ∀ r, '\n' ∉ r → P r)
    (newline : ∀ r t, '\n' ∉ r → P t → P (r ++ '\n' :: t)) (t : Text) : P t := by
  suffices h : ∀ r, '\n' ∉ r → P (r ++ t) from h [] List.not_mem_nil
  induction t with
  | nil =>
    intro r hr
    rw [List.append_nil]
    exact row r hr
  | cons c t ih =>
    intro r hr
    by_cases hc : c = '\n'
    · subst hc
      exact newline r t hr (ih [] List.not_mem_nil)
    · have hrow : '\n' ∉ r ++ [c] := by
        rw [List.mem_append, List.mem_singleton, not_or]
        exact ⟨hr, Ne.symm hc⟩
      have hnext := ih (r ++ [c]) hrow
      rwa [List.append_assoc, List.singleton_append] at hnext

def bareLine (line : Text) : Text := (beforeTail? "\n" line).getD line

theorem beforeTail?_newline (row : Text) : beforeTail? "\n" (row ++ ['\n']) = some row :=
  beforeTail?_eq_some_iff.2 rfl

theorem beforeTail?_row {row : Text} (h : '\n' ∉ row) : beforeTail? "\n" row = none := by
  rw [Option.eq_none_iff_forall_ne_some]
  intro body hbody
  rw [beforeTail?_eq_some_iff] at hbody
  exact h (hbody ▸ List.mem_append_right _ List.mem_cons_self)

theorem bareLine_newline (row : Text) : bareLine (row ++ ['\n']) = row := by
  rw [bareLine, beforeTail?_newline, Option.getD_some]

theorem bareLine_row {row : Text} (h : '\n' ∉ row) : bareLine row = row := by
  rw [bareLine, beforeTail?_row h, Option.getD_none]

theorem lines_flatMap {α : Type} {xs : List α} {f : α → Text}
    (h : xs.Pairwise fun x _ => EndsLine (f x)) :
    lines (xs.flatMap f) = xs.flatMap fun x => lines (f x) := by
  induction xs with
  | nil => rfl
  | cons x xs ih =>
    obtain ⟨hx, hxs⟩ := List.pairwise_cons.1 h
    rw [List.flatMap_cons, List.flatMap_cons, ← ih hxs]
    cases xs with
    | nil => simp
    | cons y ys => exact lines_append (hx y List.mem_cons_self) _

theorem isBlank_of_mem_lines {t line : Text} (ht : isBlank t = true) (h : line ∈ lines t) :
    isBlank line = true := by
  rw [isBlank, List.all_eq_true] at ht ⊢
  intro c hc
  refine ht c ?_
  rw [← flatten_lines t]
  exact List.mem_flatten.2 ⟨line, h, hc⟩

theorem isBlank_bareLine (line : Text) : isBlank (bareLine line) = isBlank line := by
  rw [bareLine]
  cases hbody : beforeTail? "\n" line with
  | none => rfl
  | some body =>
    rw [beforeTail?_eq_some_iff.1 hbody, isBlank_append, Option.getD_some]
    exact (Bool.and_true _).symm

theorem isBlank_lineContent (line : Text) : isBlank (lineContent line) = isBlank line := by
  rw [lineContent]
  split
  · rfl
  · rename_i body hbody
    rw [beforeTail?_eq_some_iff.1 hbody, isBlank_append]
    cases hbare : beforeTail? "\r" body with
    | none => simp [isBlank, isBlankChar]
    | some bare =>
      rw [beforeTail?_eq_some_iff.1 hbare, isBlank_append]
      simp [isBlank, isBlankChar]

/-- The lines that are not blank, each with its ending. -/
def inkedLines (t : Text) : List Text := (lines t).filter fun line => !isBlank line

/-- The contents of the lines that are not blank. -/
def inkedRows (t : Text) : List Text := (rows t).filter fun row => !isBlank row

theorem inkedRows_eq (t : Text) : inkedRows t = (inkedLines t).map lineContent := by
  rw [inkedRows, inkedLines, rows, List.filter_map]
  congr 1
  refine List.filter_congr fun line _ => ?_
  rw [Function.comp_apply, isBlank_lineContent]

theorem inkedLines_eq_nil {t : Text} (h : isBlank t = true) : inkedLines t = [] := by
  rw [inkedLines, List.filter_eq_nil_iff]
  intro line hline
  rw [isBlank_of_mem_lines h hline]
  decide

theorem inkedLines_flatMap {α : Type} {xs : List α} {f : α → Text}
    (h : xs.Pairwise fun x _ => EndsLine (f x)) :
    inkedLines (xs.flatMap f) = xs.flatMap fun x => inkedLines (f x) := by
  rw [inkedLines, lines_flatMap h, List.filter_flatMap]
  rfl

end Marginalia.Text
