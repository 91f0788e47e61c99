import Marginalia.Proofs.Text.Break

/-! # Where lines start

`rowsFrom offset t` lists the lines of a text that start at an offset or behind it. From a place
where a line starts the list begins with that line; anywhere else the next place has the same list.
-/

namespace Marginalia.Text

/-- Lines without their newlines, each with the offset where it starts. -/
def located (pos : Nat) : List Text → List (Nat × Text)
  | [] => []
  | line :: rest => (pos, bareLine line) :: located (pos + size line) rest

def rowsFrom (offset : Nat) (t : Text) : List (Nat × Text) :=
  (located 0 (lines t)).filter fun row => offset ≤ row.1

theorem located_append (pos : Nat) (xs ys : List Text) :
    located pos (xs ++ ys) = located pos xs ++ located (pos + size xs.flatten) ys := by
  induction xs generalizing pos with
  | nil => rfl
  | cons x xs ih =>
    rw [List.cons_append, located, located, ih, List.flatten_cons, size_append, ← Nat.add_assoc]
    rfl

theorem le_of_mem_located {pos : Nat} {ls : List Text} {r : Nat × Text} (h : r ∈ located pos ls) :
    pos ≤ r.1 := by
  induction ls generalizing pos with
  | nil => cases h
  | cons line rest ih =>
    rcases List.mem_cons.1 h with rfl | h
    · exact Nat.le_refl pos
    · have hle := ih h
      omega

theorem exists_line_of_mem_located {pos : Nat} {ls : List Text} {r : Nat × Text}
    (h : r ∈ located pos ls) : ∃ line ∈ ls, r.2 = bareLine line := by
  induction ls generalizing pos with
  | nil => cases h
  | cons line rest ih =>
    rcases List.mem_cons.1 h with rfl | h
    · exact ⟨line, List.mem_cons_self, rfl⟩
    · obtain ⟨found, hfound, hrow⟩ := ih h
      exact ⟨found, List.mem_cons_of_mem _ hfound, hrow⟩

/-- Lines that are not empty start before the end of all of them. -/
theorem lt_of_mem_located {pos : Nat} {t : Text} {r : Nat × Text} (h : r ∈ located pos (lines t)) :
    r.1 < pos + size t := by
  have hlines : ∀ line ∈ lines t, line ≠ [] := fun _ => ne_nil_of_mem_lines
  rw [← flatten_lines t]
  generalize lines t = ls at h hlines
  induction ls generalizing pos with
  | nil => cases h
  | cons line rest ih =>
    rw [List.forall_mem_cons] at hlines
    have hsize := mt size_eq_zero_iff.1 hlines.1
    rw [List.flatten_cons, size_append]
    rcases List.mem_cons.1 h with rfl | h
    · simp only
      omega
    · have hlt := ih h hlines.2
      omega

theorem pairwise_located (pos : Nat) (t : Text) :
    (located pos (lines t)).Pairwise fun r r' => r.1 < r'.1 := by
  have hlines : ∀ line ∈ lines t, line ≠ [] := fun _ => ne_nil_of_mem_lines
  generalize lines t = ls at hlines
  induction ls generalizing pos with
  | nil => exact .nil
  | cons line rest ih =>
    rw [List.forall_mem_cons] at hlines
    refine List.pairwise_cons.2 ⟨fun r hr => ?_, ih _ hlines.2⟩
    have hsize := mt size_eq_zero_iff.1 hlines.1
    have hle := le_of_mem_located hr
    simp only
    omega

theorem filter_located_of_le {offset pos : Nat} (h : offset ≤ pos) (ls : List Text) :
    (located pos ls).filter (fun r => offset ≤ r.1) = located pos ls := by
  rw [List.filter_eq_self]
  intro r hr
  exact decide_eq_true (Nat.le_trans h (le_of_mem_located hr))

theorem rowsFrom_eq_nil {offset : Nat} {t : Text} (h : size t ≤ offset) :
    rowsFrom offset t = [] := by
  rw [rowsFrom, List.filter_eq_nil_iff]
  intro r hr
  have hlt := lt_of_mem_located hr
  rw [decide_eq_true_eq]
  omega

/-- Whole lines before an offset are passed over. -/
theorem rowsFrom_append {a : Text} (ha : EndsLine a) {offset : Nat} (h : size a ≤ offset)
    (u : Text) :
    rowsFrom offset (a ++ u) = (located (size a) (lines u)).filter fun r => offset ≤ r.1 := by
  have hnone : (located 0 (lines a)).filter (fun r => offset ≤ r.1) = [] := rowsFrom_eq_nil h
  rw [rowsFrom, lines_append ha, located_append, List.filter_append, hnone, flatten_lines,
    Nat.zero_add, List.nil_append]

theorem rowsFrom_size_append {a : Text} (ha : EndsLine a) (u : Text) :
    rowsFrom (size a) (a ++ u) = located (size a) (lines u) := by
  rw [rowsFrom_append ha (Nat.le_refl _), filter_located_of_le (Nat.le_refl _)]

theorem exists_first_row {u : Text} (hu : u ≠ []) :
    ∃ row rest line more, u = row ++ rest ∧ '\n' ∉ row ∧ (∀ c ∈ rest.head?, c = '\n') ∧
      lines u = line :: more ∧ bareLine line = row := by
  induction u using rows_induction with
  | row r hr => exact ⟨r, [], r, [], by simp, hr, nofun, lines_row hr hu, bareLine_row hr⟩
  | newline r t hr _ =>
    refine ⟨r, '\n' :: t, r ++ ['\n'], lines t, rfl, hr, ?_, lines_newline hr t, bareLine_newline r⟩
    rintro c ⟨⟩
    rfl

/-- A line that starts at an offset comes first of those from there on. -/
theorem exists_rowsFrom_cons {a : Text} (ha : EndsLine a) (c : Char) (u : Text) :
    ∃ row rest, c :: u = row ++ rest ∧ '\n' ∉ row ∧ (∀ d ∈ rest.head?, d = '\n') ∧
      rowsFrom (size a) (a ++ c :: u) =
        (size a, row) :: rowsFrom (size a + c.utf8Size) (a ++ c :: u) := by
  obtain ⟨row, rest, line, more, hsplit, hrow, hrest, hlines, hbare⟩ :=
    exists_first_row (List.cons_ne_nil c u)
  refine ⟨row, rest, hsplit, hrow, hrest, ?_⟩
  have hpos := Char.utf8Size_pos c
  have hle : c.utf8Size ≤ size line := by
    obtain ⟨v, hv, _⟩ := exists_of_lines_eq_cons hlines
    have hne : line ≠ [] := ne_nil_of_mem_lines (hlines ▸ List.mem_cons_self)
    obtain ⟨d, others, rfl⟩ := List.exists_cons_of_ne_nil hne
    obtain ⟨rfl, _⟩ := List.cons.inj hv
    exact Nat.le_add_right _ _
  rw [rowsFrom_size_append ha, rowsFrom_append ha (Nat.le_add_right _ _), hlines, located, hbare,
    List.filter_cons_of_neg (by rw [decide_eq_true_eq]; omega), filter_located_of_le (by omega)]

theorem exists_bareLine {t line : Text} (h : line ∈ lines t) :
    ∃ ending, line = bareLine line ++ ending ∧ '\n' ∉ bareLine line := by
  obtain ⟨row, hrow, rfl | rfl⟩ := exists_row_of_mem_lines h
  · rw [bareLine_row hrow]
    exact ⟨[], (List.append_nil _).symm, hrow⟩
  · rw [bareLine_newline]
    exact ⟨['\n'], rfl, hrow⟩

theorem exists_of_mem_located {t done u : Text} {r : Nat × Text} (ht : t = done ++ u)
    (hends : u ≠ [] → EndsLine done) (h : r ∈ located (size done) (lines u)) :
    ∃ before after, t = before ++ (r.2 ++ after) ∧ size before = r.1 ∧ EndsLine before ∧
      '\n' ∉ r.2 := by
  generalize hls : lines u = ls at h
  induction ls generalizing done u with
  | nil => cases h
  | cons line rest ih =>
    have hmem : line ∈ lines u := by
      rw [hls]
      exact List.mem_cons_self
    obtain ⟨v, rfl, rfl, _, hline⟩ := exists_of_lines_eq_cons hls
    have hdone : EndsLine done := hends fun hnil => by
      rw [hnil] at hls
      cases hls
    rcases List.mem_cons.1 h with rfl | h
    · obtain ⟨ending, hending, hrow⟩ := exists_bareLine hmem
      refine ⟨done, ending ++ v, ?_, rfl, hdone, hrow⟩
      rw [ht, ← List.append_assoc (bareLine line), ← hending]
    · rw [← size_append] at h
      exact ih (by rw [ht, List.append_assoc]) (fun hv => hdone.append (hline hv)) rfl h

theorem exists_of_mem_rowsFrom {t : Text} {offset : Nat} {r : Nat × Text}
    (h : r ∈ rowsFrom offset t) :
    ∃ before after, t = before ++ (r.2 ++ after) ∧ size before = r.1 ∧ EndsLine before ∧
      '\n' ∉ r.2 :=
  exists_of_mem_located (List.nil_append t).symm (fun _ => endsLine_nil) (List.mem_filter.1 h).1

theorem rowsFrom_congr {t : Text} {offset pos : Nat} (hle : offset ≤ pos)
    (hnext : ∀ next, LineStart t next → offset ≤ next → pos ≤ next) :
    rowsFrom offset t = rowsFrom pos t := by
  refine List.filter_congr fun r hr => ?_
  obtain ⟨a, b, ht, hsize, ha, _⟩ :=
    exists_of_mem_located (List.nil_append t).symm (fun _ => endsLine_nil) hr
  rw [Bool.eq_iff_iff, decide_eq_true_eq, decide_eq_true_eq]
  exact ⟨hnext r.1 ⟨a, _, ht, hsize, ha⟩, Nat.le_trans hle⟩

/-- Inside a line the next place has the same lines from it on. -/
theorem rowsFrom_of_not_endsLine {a : Text} (ha : ¬EndsLine a) (c : Char) (u : Text) :
    rowsFrom (size a) (a ++ c :: u) = rowsFrom (size a + c.utf8Size) (a ++ c :: u) := by
  apply rowsFrom_congr (Nat.le_add_right _ _)
  rintro _ ⟨b, v, hb, rfl, hends⟩ hle
  obtain ⟨m, rfl, hm⟩ := exists_between hb hle
  cases m with
  | nil =>
    rw [List.append_nil] at hends
    exact absurd hends ha
  | cons d m =>
    obtain ⟨rfl, _⟩ := List.cons.inj hm
    rw [size_append, size_cons]
    omega

end Marginalia.Text
