import Marginalia.Proofs.Text.Cut
import Mathlib.Data.List.Induction

/-! # Line breaks of two characters

`crlf` writes every newline as a carriage return and a newline, and `shift` tells where a place of
the text goes. Lines stay lines, blank stays blank and indentation stays as deep as it is.
-/

namespace Marginalia.Text

def crlf (t : Text) : Text := t.flatMap fun c => if c = '\n' then ['\r', '\n'] else [c]

/-- The offset in `crlf t` of the place that has the given offset in `t`. -/
def shift (t : Text) (pos : Nat) : Nat := size (crlf (upTo pos t))

@[simp] theorem crlf_nil : crlf [] = [] := rfl

@[simp] theorem crlf_append (s t : Text) : crlf (s ++ t) = crlf s ++ crlf t :=
  List.flatMap_append

theorem crlf_newline (t : Text) : crlf ('\n' :: t) = '\r' :: '\n' :: crlf t := rfl

theorem crlf_cons {c : Char} (hc : c ≠ '\n') (t : Text) : crlf (c :: t) = c :: crlf t := by
  rw [crlf, List.flatMap_cons, if_neg hc]
  rfl

theorem crlf_eq_self {t : Text} (h : '\n' ∉ t) : crlf t = t := by
  induction t with
  | nil => rfl
  | cons c t ih =>
    rw [List.mem_cons, not_or] at h
    rw [crlf_cons (Ne.symm h.1), ih h.2]

theorem crlf_flatten (ts : List Text) : crlf ts.flatten = (ts.map crlf).flatten := by
  induction ts with
  | nil => rfl
  | cons t ts ih => rw [List.flatten_cons, crlf_append, ih, List.map_cons, List.flatten_cons]

theorem length_le_crlf (t : Text) : t.length ≤ (crlf t).length := by
  induction t with
  | nil => exact Nat.le_refl _
  | cons c t ih =>
    by_cases hc : c = '\n'
    · subst hc
      simp only [crlf_newline, List.length_cons]
      omega
    · simp only [crlf_cons hc, List.length_cons]
      omega

theorem head?_crlf (t : Text) : (crlf t).head? ≠ some '\n' := by
  cases t with
  | nil => simp
  | cons c t =>
    by_cases hc : c = '\n'
    · subst hc
      simp [crlf_newline]
    · simpa [crlf_cons hc] using hc

theorem getLast?_crlf (t : Text) : (crlf t).getLast? = t.getLast? := by
  rcases List.eq_nil_or_concat t with rfl | ⟨s, c, rfl⟩
  · rfl
  · rw [List.concat_eq_append, crlf_append]
    by_cases hc : c = '\n'
    · subst hc
      simp [crlf]
    · simp [crlf_cons hc]

/-! ## Places -/

theorem shift_size_append (a b : Text) : shift (a ++ b) (size a) = size (crlf a) := by
  rw [shift, upTo_size_append]

theorem shift_size (t : Text) : shift t (size t) = size (crlf t) := by
  have h := shift_size_append t []
  rwa [List.append_nil] at h

@[simp] theorem shift_zero (t : Text) : shift t 0 = 0 := shift_size_append [] t

section Places

variable {t : Text} {pos pos' start stop : Nat}

theorem Boundary.shift (h : Boundary t pos) : Boundary (crlf t) (shift t pos) := by
  obtain ⟨a, b, rfl, rfl⟩ := h
  exact ⟨crlf a, crlf b, crlf_append a b, (shift_size_append a b).symm⟩

theorem upTo_shift (h : Boundary t pos) : upTo (shift t pos) (crlf t) = crlf (upTo pos t) := by
  obtain ⟨a, b, rfl, rfl⟩ := h
  rw [shift_size_append, crlf_append, upTo_size_append, upTo_size_append]

theorem after_shift (h : Boundary t pos) : after (shift t pos) (crlf t) = crlf (after pos t) := by
  obtain ⟨a, b, rfl, rfl⟩ := h
  rw [shift_size_append, crlf_append, after_size_append, after_size_append]

theorem slice_shift (hstart : Boundary t start) (hstop : Boundary t stop) (hle : start ≤ stop) :
    slice (shift t start) (shift t stop) (crlf t) = crlf (slice start stop t) := by
  obtain ⟨a, m, b, ht, rfl, rfl, hslice⟩ := exists_slice hstart hstop hle
  rw [hslice, ht, shift_size_append, ← List.append_assoc, shift_size_append, List.append_assoc]
  simp only [crlf_append, size_append, slice_size_append]

theorem shift_lt (hpos : Boundary t pos) (hpos' : Boundary t pos') (hlt : pos < pos') :
    shift t pos < shift t pos' := by
  obtain ⟨a, m, b, ht, rfl, rfl, _⟩ := exists_slice hpos hpos' (Nat.le_of_lt hlt)
  rw [ht, shift_size_append, ← List.append_assoc, shift_size_append, crlf_append, size_append]
  have hm : 0 < size m := by
    rw [size_append] at hlt
    omega
  have hlength : 0 < m.length := by
    rw [List.length_pos_iff]
    rintro rfl
    exact Nat.lt_irrefl _ hm
  have hle := length_le_crlf m
  have hsize := length_le_size (crlf m)
  omega

theorem length_crlf_after_lt (hpos : Boundary t pos) (hpos' : Boundary t pos') (hlt : pos < pos') :
    (crlf (after pos' t)).length < (crlf (after pos t)).length := by
  rw [← after_shift hpos, ← after_shift hpos']
  exact length_after_lt hpos.shift hpos'.shift (shift_lt hpos hpos' hlt)

theorem shift_lt_iff (hpos : Boundary t pos) (hpos' : Boundary t pos') :
    shift t pos < shift t pos' ↔ pos < pos' := by
  refine ⟨fun h => ?_, shift_lt hpos hpos'⟩
  rcases Nat.lt_trichotomy pos pos' with hlt | rfl | hlt
  · exact hlt
  · exact absurd h (Nat.lt_irrefl _)
  · exact absurd (shift_lt hpos' hpos hlt) (Nat.lt_asymm h)

theorem shift_le_iff (hpos : Boundary t pos) (hpos' : Boundary t pos') :
    shift t pos ≤ shift t pos' ↔ pos ≤ pos' := by
  rw [← Nat.not_lt, ← Nat.not_lt, shift_lt_iff hpos' hpos]

end Places

/-! ## Lines -/

theorem exists_row_of_mem_lines {t line : Text} (h : line ∈ lines t) :
    ∃ row, '\n' ∉ row ∧ (line = row ∨ line = row ++ ['\n']) := by
  induction t using rows_induction with
  | row r hr =>
    by_cases hne : r = []
    · subst hne
      cases h
    · rw [lines_row hr hne, List.mem_singleton] at h
      exact ⟨r, hr, .inl h⟩
  | newline r t hr ih =>
    rw [lines_newline hr] at h
    rcases List.mem_cons.1 h with rfl | h
    · exact ⟨r, hr, .inr rfl⟩
    · exact ih h

theorem lines_crlf (t : Text) : lines (crlf t) = (lines t).map crlf := by
  induction t using rows_induction with
  | row r hr =>
    by_cases hne : r = []
    · subst hne
      rfl
    · rw [crlf_eq_self hr, lines_row hr hne, List.map_singleton, crlf_eq_self hr]
  | newline r t hr ih =>
    have hrow : '\n' ∉ r ++ ['\r'] := by simp [hr]
    have hcrlf : crlf (r ++ '\n' :: t) = (r ++ ['\r']) ++ '\n' :: crlf t := by
      rw [crlf_append, crlf_eq_self hr, crlf_newline, List.append_assoc]
      rfl
    rw [hcrlf, lines_newline hrow, lines_newline hr, ih, List.map_cons, crlf_append,
      crlf_eq_self hr, List.append_assoc]
    rfl

theorem endsLine_crlf {t : Text} (h : EndsLine t) : EndsLine (crlf t) := by
  rwa [EndsLine, getLast?_crlf]

/-! ## Blanks -/

@[simp] theorem isBlank_crlf (t : Text) : isBlank (crlf t) = isBlank t := by
  induction t with
  | nil => rfl
  | cons c t ih =>
    by_cases hc : c = '\n'
    · subst hc
      exact ih
    · rw [crlf_cons hc, isBlank, List.all_cons, isBlank, List.all_cons]
      exact congrArg _ ih

theorem dropWhile_crlf {p : Char → Bool} (hnewline : p '\n' = p '\r') (t : Text) :
    (crlf t).dropWhile p = crlf (t.dropWhile p) := by
  induction t with
  | nil => rfl
  | cons c t ih =>
    by_cases hc : c = '\n'
    · subst hc
      rw [crlf_newline, List.dropWhile_cons, List.dropWhile_cons, List.dropWhile_cons, ← hnewline]
      split
      · exact ih
      · rfl
    · rw [crlf_cons hc, List.dropWhile_cons, List.dropWhile_cons]
      split
      · exact ih
      · exact (crlf_cons hc t).symm

theorem dropEndWhile_concat (p : Char → Bool) (t : Text) (c : Char) :
    dropEndWhile p (t ++ [c]) = if p c then dropEndWhile p t else t ++ [c] := by
  rw [dropEndWhile, List.reverse_append, List.reverse_singleton, List.singleton_append,
    List.dropWhile_cons]
  split
  · rfl
  · simp

theorem dropEndWhile_crlf {p : Char → Bool} (hnewline : p '\n' = true) (hreturn : p '\r' = true)
    (t : Text) : dropEndWhile p (crlf t) = crlf (dropEndWhile p t) := by
  induction t using List.reverseRecOn with
  | nil => rfl
  | append_singleton t c ih =>
    rw [crlf_append, dropEndWhile_concat]
    by_cases hc : c = '\n'
    · subst hc
      have hbreak : crlf t ++ crlf ['\n'] = (crlf t ++ ['\r']) ++ ['\n'] := by simp [crlf]
      rw [hbreak, dropEndWhile_concat, dropEndWhile_concat, if_pos hnewline, if_pos hreturn,
        if_pos hnewline, ih]
    · rw [crlf_cons hc, crlf_nil, dropEndWhile_concat, ih]
      split
      · rfl
      · rw [crlf_append, crlf_cons hc, crlf_nil]

theorem trim_crlf (t : Text) : trim (crlf t) = crlf (trim t) := by
  rw [trim, trimStart, dropWhile_crlf rfl, trimEnd, dropEndWhile_crlf rfl rfl]
  rfl

theorem mem_of_mem_dropEndWhile {p : Char → Bool} {t : Text} {c : Char}
    (h : c ∈ dropEndWhile p t) : c ∈ t := by
  rw [dropEndWhile, List.mem_reverse] at h
  exact List.mem_reverse.1 ((List.dropWhile_sublist p).subset h)

theorem mem_of_mem_trim {t : Text} {c : Char} (h : c ∈ trim t) : c ∈ t :=
  (List.dropWhile_sublist _).subset (mem_of_mem_dropEndWhile h)

theorem dropEndWhile_append {p : Char → Bool} {t : Text} (ht : t.all p = true) (s : Text) :
    dropEndWhile p (s ++ t) = dropEndWhile p s := by
  rw [dropEndWhile, List.reverse_append, List.dropWhile_append_of_pos, dropEndWhile]
  intro c hc
  exact List.all_eq_true.1 ht c (List.mem_reverse.1 hc)

theorem trim_append {t : Text} (ht : isBlank t = true) (s : Text) : trim (s ++ t) = trim s := by
  rw [trim, trim, trimStart, trimStart, List.dropWhile_append]
  split
  · rename_i hs
    rw [List.isEmpty_iff.1 hs, ← trimStart, trimStart_eq_nil_iff.2 ht]
  · exact dropEndWhile_append ht _

/-- A line is its content and a blank ending, which indents nothing. -/
theorem exists_lineContent (line : Text) :
    ∃ ending, line = lineContent line ++ ending ∧ isBlank ending = true ∧
      ending.takeWhile isIndentChar = [] := by
  rw [lineContent]
  split
  · exact ⟨[], by simp, rfl, rfl⟩
  · rename_i body hbody
    rw [beforeTail?_eq_some_iff.1 hbody]
    cases hbare : beforeTail? "\r" body with
    | none => exact ⟨"\n", rfl, rfl, rfl⟩
    | some bare =>
      refine ⟨"\r\n", ?_, rfl, rfl⟩
      rw [beforeTail?_eq_some_iff.1 hbare, Option.getD_some, List.append_assoc]
      rfl

theorem takeWhile_lineContent (line : Text) :
    (lineContent line).takeWhile isIndentChar = line.takeWhile isIndentChar := by
  obtain ⟨ending, hline, _, hending⟩ := exists_lineContent line
  conv => rhs; rw [hline]
  rw [List.takeWhile_append, hending, List.append_nil]
  split
  · rename_i hlength
    exact List.takeWhile_prefix _ |>.eq_of_length hlength
  · rfl

theorem trim_lineContent (line : Text) : trim (lineContent line) = trim line := by
  obtain ⟨ending, hline, hblank, _⟩ := exists_lineContent line
  conv => rhs; rw [hline, trim_append hblank]

theorem trimEnd_lineContent (line : Text) : trimEnd (lineContent line) = trimEnd line := by
  obtain ⟨ending, hline, hblank, _⟩ := exists_lineContent line
  conv => rhs; rw [hline, trimEnd, dropEndWhile_append hblank]
  rfl

theorem takeWhile_isIndentChar_crlf (t : Text) :
    (crlf t).takeWhile isIndentChar = t.takeWhile isIndentChar := by
  induction t with
  | nil => rfl
  | cons c t ih =>
    by_cases hc : c = '\n'
    · subst hc
      rfl
    · rw [crlf_cons hc, List.takeWhile_cons, List.takeWhile_cons, ih]

theorem indent_crlf (t : Text) : indent (crlf t) = indent t := by
  have hblank : (fun line => !isBlank (lineContent (crlf line))) =
      fun line => !isBlank (lineContent line) := by
    funext line
    rw [isBlank_lineContent, isBlank_crlf, isBlank_lineContent]
  rw [indent, indent, rows, rows, lines_crlf, List.map_map, List.find?_map, List.find?_map]
  simp only [Function.comp_def, hblank]
  cases (lines t).find? fun line => !isBlank (lineContent line) with
  | none => rfl
  | some line =>
    simp only [Option.map_some, takeWhile_lineContent, takeWhile_isIndentChar_crlf]

@[simp] theorem indentWidth_crlf (t : Text) : indentWidth (crlf t) = indentWidth t := by
  rw [indentWidth, indent_crlf, indentWidth]

/-- Trimmed lines hold no newline, so they are the same with breaks of either form. -/
theorem trim_crlf_of_mem_lines {t line : Text} (h : line ∈ lines t) :
    trim (crlf line) = trim line := by
  obtain ⟨row, hrow, hline⟩ := exists_row_of_mem_lines h
  have htrim : trim line = trim row := by
    rcases hline with rfl | rfl
    · rfl
    · exact trim_append rfl row
  rw [trim_crlf, htrim]
  exact crlf_eq_self fun hmem => hrow (mem_of_mem_trim hmem)

/-! ## Heads and tails without line breaks -/

theorem afterHead?_crlf {head : Text} (hnewline : '\n' ∉ head) (hreturn : '\r' ∉ head) (t : Text) :
    afterHead? head (crlf t) = (afterHead? head t).map crlf := by
  induction head generalizing t with
  | nil => rfl
  | cons d head ih =>
    rw [List.mem_cons, not_or] at hnewline hreturn
    cases t with
    | nil => rfl
    | cons c t =>
      by_cases hc : c = '\n'
      · subst hc
        rw [crlf_newline, afterHead?, afterHead?, if_neg (Ne.symm hreturn.1),
          if_neg (Ne.symm hnewline.1)]
        rfl
      · rw [crlf_cons hc, afterHead?, afterHead?, ih hnewline.2 hreturn.2]
        split <;> rfl

theorem startsWith_crlf {head : Text} (hnewline : '\n' ∉ head) (hreturn : '\r' ∉ head) (t : Text) :
    startsWith head (crlf t) = startsWith head t := by
  rw [startsWith, afterHead?_crlf hnewline hreturn, Option.isSome_map, startsWith]

theorem exists_of_crlf_eq_append {tail : Text} (hnewline : '\n' ∉ tail) {t rest : Text}
    (h : crlf t = rest ++ tail) : ∃ rest', t = rest' ++ tail := by
  induction tail using List.reverseRecOn generalizing t with
  | nil => exact ⟨t, (List.append_nil t).symm⟩
  | append_singleton tail d ih =>
    rw [List.mem_append, List.mem_singleton, not_or] at hnewline
    rcases List.eq_nil_or_concat t with rfl | ⟨s, c, rfl⟩
    · simp at h
    · rw [List.concat_eq_append, crlf_append, ← List.append_assoc] at h
      by_cases hc : c = '\n'
      · have hlast : crlf s ++ crlf [c] = (crlf s ++ ['\r']) ++ ['\n'] := by simp [hc, crlf]
        rw [hlast] at h
        have hd := List.singleton_inj.1 (List.append_inj_right' h rfl)
        exact absurd hd hnewline.2
      · rw [crlf_cons hc, crlf_nil] at h
        obtain ⟨hs, hd⟩ := List.append_inj' h rfl
        obtain ⟨rest', rfl⟩ := ih hnewline.1 hs
        exact ⟨rest', by rw [List.concat_eq_append, hd, List.append_assoc]⟩

theorem endsWith_crlf {tail : Text} (hnewline : '\n' ∉ tail) (t : Text) :
    endsWith tail (crlf t) = endsWith tail t := by
  rw [Bool.eq_iff_iff, endsWith, endsWith, Option.isSome_iff_exists, Option.isSome_iff_exists]
  simp only [beforeTail?_eq_some_iff]
  constructor
  · rintro ⟨rest, hrest⟩
    exact exists_of_crlf_eq_append hnewline hrest
  · rintro ⟨rest, rfl⟩
    exact ⟨crlf rest, by rw [crlf_append, crlf_eq_self hnewline]⟩

end Marginalia.Text
