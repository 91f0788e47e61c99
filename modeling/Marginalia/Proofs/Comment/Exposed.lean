import Marginalia.Proofs.Section.Closed

/-! # Rows that a comment exposes

Taking spans out of some code leaves its lines as they are, except where a span ends in the middle
of one: what stands behind it becomes a line of its own.
-/

namespace Marginalia

open Text (EndsLine LineStart Boundary lines bareLine size after slice)

namespace Text

/-- No line of the text consists of the given row. -/
def Free (row t : Text) : Prop := ∀ line ∈ lines t, bareLine line ≠ row

/-- The first line of the text consists of the given row. -/
def Opens (row t : Text) : Prop := ∃ line ∈ (lines t).head?, bareLine line = row

variable {row : Text}

theorem free_nil : Free row [] := by
  intro line hline
  cases hline

theorem free_append_iff {s : Text} (hs : EndsLine s) (t : Text) :
    Free row (s ++ t) ↔ Free row s ∧ Free row t := by
  rw [Free, lines_append hs]
  exact List.forall_mem_append

theorem not_opens_of_free {t : Text} (h : Free row t) : ¬ Opens row t := by
  rintro ⟨line, hline, hrow⟩
  exact h line (List.mem_of_mem_head? hline) hrow

theorem opens_append_iff {s : Text} (hs : EndsLine s) (hne : s ≠ []) (t : Text) :
    Opens row (s ++ t) ↔ Opens row s := by
  obtain ⟨line, rest, hlines⟩ := List.exists_cons_of_ne_nil (lines_ne_nil hne)
  rw [Opens, Opens, lines_append hs, hlines, List.cons_append, List.head?_cons, List.head?_cons]

/-- Only the first line of a tail may not be a line of the whole text. -/
theorem free_of_append {s t : Text} (h : Free row (s ++ t)) (hopens : ¬ Opens row t) :
    Free row t := by
  cases hlines : lines t with
  | nil =>
    intro line hline
    rw [hlines] at hline
    cases hline
  | cons first rest =>
    obtain ⟨u, rfl, hrest, hfirst, hend⟩ := exists_of_lines_eq_cons hlines
    intro line hline
    rw [hlines] at hline
    rcases List.mem_cons.1 hline with rfl | hline
    · intro hrow
      exact hopens ⟨line, by rw [hlines]; rfl, hrow⟩
    · by_cases hu : u = []
      · rw [hrest, hu] at hline
        cases hline
      · have hne : first ≠ [] := ne_nil_of_mem_lines (hlines ▸ List.mem_cons_self)
        rw [← List.append_assoc, free_append_iff ((hend hu).append_left hne s)] at h
        exact h.2 line (hrest ▸ hline)

/-- The text between two places of some code, the second of which starts a line or ends the code,
has a line that the code has not only if what stands behind the first place opens with it. -/
theorem free_gap_iff {code : Text} (hcode : Free row code) {stop next : Nat}
    (hstop : Boundary code stop) (hle : stop ≤ next)
    (hnext : LineStart code next ∨ next = size code) :
    (stop < next → Free row (slice stop next code)) ↔ ¬ Opens row (after stop code) := by
  obtain ⟨a, m, b, hsplit, ha, hends⟩ : ∃ a m b, code = a ++ (m ++ b) ∧ size a = stop ∧
      size (a ++ m) = next ∧ (b = [] ∨ EndsLine (a ++ m)) := by
    rcases hnext with hline | rfl
    · obtain ⟨a, m, b, hsplit, ha, hm, _⟩ := exists_slice hstop hline.boundary hle
      refine ⟨a, m, b, hsplit, ha, hm, .inr ?_⟩
      have hupTo := hline.endsLine_upTo
      rwa [hsplit, ← hm, ← List.append_assoc, upTo_size_append] at hupTo
    · obtain ⟨a, m, rfl, ha⟩ := hstop
      exact ⟨a, m, [], by rw [List.append_nil], ha, rfl, .inl rfl⟩
  obtain ⟨hm, hends⟩ := hends
  subst hsplit ha hm
  rw [after_size_append, size_append, slice_size_append]
  by_cases hne : m = []
  · subst hne
    refine iff_of_true (fun hlt => ?_) ?_
    · exact absurd hlt (Nat.lt_irrefl _)
    · rw [List.append_nil] at hends
      rcases hends with rfl | hends
      · exact not_opens_of_free free_nil
      · exact not_opens_of_free ((free_append_iff hends _).1 hcode).2
  · have hsize : size m ≠ 0 := mt size_eq_zero_iff.1 hne
    have hlt : size a < size a + size m := by omega
    have hopens : Opens row (m ++ b) ↔ Opens row m := by
      rcases hends with rfl | hends
      · rw [List.append_nil]
      · exact opens_append_iff hends.of_append hne b
    -- The cut at the second place falls between lines, so it makes no new one.
    have hwhole : Free row (a ++ m) := by
      rcases hends with rfl | hends
      · rwa [List.append_nil] at hcode
      · rw [← List.append_assoc] at hcode
        exact ((free_append_iff hends b).1 hcode).1
    rw [hopens]
    exact ⟨fun hfree => not_opens_of_free (hfree hlt), fun h _ => free_of_append hwhole h⟩

end Text

namespace Section

open Text (Free Opens)

variable {row : Text}

theorem free_spanSections_iff {code : Text} (hcode : Free row code) {pos level : Nat}
    {stripped : Bool} {spans : List Span} (h : Span.Orderly code pos spans)
    (hstart : ∀ span ∈ spans, LineStart code span.start) :
    (∀ p ∈ spanSections level stripped code spans, Free row p.code) ↔
      ∀ span ∈ spans, ¬ Opens row (after span.stop code) := by
  induction spans generalizing pos with
  | nil => simp [spanSections]
  | cons span rest ih =>
    obtain ⟨_, _, _, hstop, hrest⟩ := h
    have ih := ih hrest fun s hs => hstart s (List.mem_cons_of_mem _ hs)
    have hgap {next : Nat} : (∀ p ∈ (if span.stop < next then
        [{ code := slice span.stop next code, level }] else [] : List Section), Free row p.code) ↔
        (span.stop < next → Free row (slice span.stop next code)) := by
      split
      · rename_i hlt
        simp [hlt]
      · rename_i hge
        exact iff_of_true (by simp) fun hlt => absurd hlt hge
    have hfirst : Free row (Section.code { docs := span.docs, level, stripped }) := Text.free_nil
    cases rest with
    | nil =>
      rw [spanSections, List.cons_append, List.forall_mem_cons, List.forall_mem_append, ih, hgap,
        Text.free_gap_iff hcode hstop hstop.le_size (.inr rfl)]
      simp [hfirst]
    | cons next rest =>
      have hnext := hstart next (List.mem_cons_of_mem _ List.mem_cons_self)
      rw [spanSections, List.cons_append, List.forall_mem_cons, List.forall_mem_append, ih, hgap,
        Text.free_gap_iff hcode hstop hrest.1 (.inl hnext), List.forall_mem_cons]
      simp [hfirst]

/-- The parts that spans leave have a line that the code has not only where it is exposed. -/
theorem free_splitBySpans_iff {s : Section} (hcode : Free row s.code) {spans : List Span}
    (h : Span.Orderly s.code 0 spans) (hstart : ∀ span ∈ spans, LineStart s.code span.start)
    (stripped : Bool) :
    (∀ p ∈ s.splitBySpans spans stripped, Free row p.code) ↔
      ∀ span ∈ spans, ¬ Opens row (after span.stop s.code) := by
  cases spans with
  | nil => simpa [splitBySpans] using hcode
  | cons span rest =>
    have hhead : Free row (Text.upTo span.start s.code) := by
      rw [← Text.upTo_append_after span.start s.code,
        Text.free_append_iff (hstart span List.mem_cons_self).endsLine_upTo] at hcode
      exact hcode.1
    rw [splitBySpans, List.forall_mem_cons, free_spanSections_iff hcode h hstart]
    exact and_iff_right hhead

end Section

end Marginalia
