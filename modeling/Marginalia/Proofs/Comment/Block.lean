import Marginalia.Comment.Block
import Marginalia.Proofs.Comment.Exposed
import Marginalia.Proofs.Regex.Place

/-! # Where paired comments lie

The spans of paired comments are orderly whatever the delimiters are. If every start delimiter is
bound to a line start, so are the spans.
-/

namespace Marginalia.BlockComment

open Text (Boundary LineStart)

variable {b : BlockComment} {code : Text}

theorem le_advance (code : Text) (pos : Nat) : pos ≤ advance code pos := by
  rw [advance]
  split <;> omega

theorem advance_of_lt {pos : Nat} (hpos : Boundary code pos) (h : pos < Text.size code) :
    Boundary code (advance code pos) ∧ pos < advance code pos := by
  obtain ⟨a, b, rfl, rfl⟩ := hpos
  rw [advance, Text.after_size_append]
  cases b with
  | nil =>
    rw [List.append_nil] at h
    exact absurd h (Nat.lt_irrefl _)
  | cons c b =>
    have hc := Char.utf8Size_pos c
    refine ⟨⟨a ++ [c], b, by simp, by simp⟩, ?_⟩
    simp only
    omega

theorem advance_of_ge {pos : Nat} (h : Text.size code ≤ pos) : advance code pos = pos + 1 := by
  have hlength := Text.length_after_anti code h
  have hend := Text.after_size_append code []
  rw [List.append_nil] at hend
  rw [hend, List.length_nil, Nat.le_zero, List.length_eq_zero_iff] at hlength
  rw [advance, hlength]

theorem bounds_of_closingFrom {fuel pos : Nat} {m : Match}
    (h : b.closingFrom code fuel pos = some m) :
    pos ≤ m.start ∧ m.start ≤ m.stop ∧ Boundary code m.start ∧ Boundary code m.stop := by
  induction fuel generalizing pos with
  | zero => cases h
  | succ fuel ih =>
    rw [closingFrom] at h
    split at h
    · cases h
    · rename_i hpos
      split at h
      · cases h
      · rename_i found hfound
        have hstart := Regex.le_start_of_findAt hfound (Nat.le_of_not_lt hpos)
        have hstop := Regex.start_le_stop_of_findAt hfound
        split at h
        · obtain rfl := Option.some.inj h
          exact ⟨hstart, hstop, Regex.boundary_start_of_findAt hfound,
            Regex.boundary_stop_of_findAt hfound⟩
        · split at h
          · obtain ⟨hle, hrest⟩ := ih h
            exact ⟨by omega, hrest⟩
          · split at h
            · obtain ⟨hle, hrest⟩ := ih h
              have hnext := le_advance code found.stop
              exact ⟨by omega, hrest⟩
            · cases h

theorem bounds_of_closing? {pos : Nat} {m : Match} (h : b.closing? code pos = some m) :
    pos ≤ m.start ∧ m.start ≤ m.stop ∧ Boundary code m.start ∧ Boundary code m.stop :=
  bounds_of_closingFrom h

/-- What is known of the next comment: its start delimiter, and the end delimiter after it. -/
theorem exists_of_spanFrom {fuel pos : Nat} {s : Span} (h : b.spanFrom code fuel pos = some s) :
    ∃ (from' : Nat) (m e : Match), pos ≤ from' ∧ from' ≤ Text.size code ∧
      b.opening.findAt code from' = some m ∧ b.closing? code m.stop = some e ∧
        s = ⟨m.start, e.stop, (m.group? code 1).getD [] ++ Text.slice m.stop e.start code⟩ := by
  induction fuel generalizing pos with
  | zero => cases h
  | succ fuel ih =>
    rw [spanFrom] at h
    split at h
    · cases h
    · rename_i hpos
      have hpos := Nat.le_of_not_lt hpos
      split at h
      · cases h
      · rename_i m hm
        split at h
        · split at h
          · cases h
          · obtain ⟨from', m', e, hle, hrest⟩ := ih h
            have hnext := le_advance code m.stop
            have hstart := Regex.le_start_of_findAt hm hpos
            have hstop := Regex.start_le_stop_of_findAt hm
            exact ⟨from', m', e, by omega, hrest⟩
        · split at h
          · cases h
          · rename_i e he
            obtain rfl := Option.some.inj h
            exact ⟨pos, m, e, Nat.le_refl _, hpos, hm, he, rfl⟩

theorem bounds_of_nextSpan {pos : Nat} {s : Span} (h : b.nextSpan code pos = some s) :
    pos ≤ s.start ∧ Boundary code s.start ∧ s.start ≤ s.stop ∧ Boundary code s.stop := by
  obtain ⟨from', m, e, hle, hsize, hm, he, rfl⟩ := exists_of_spanFrom h
  have hfrom := Regex.le_start_of_findAt hm hsize
  have hm' := Regex.start_le_stop_of_findAt hm
  obtain ⟨hbody, hend, _, hboundary⟩ := bounds_of_closing? he
  exact ⟨Nat.le_trans hle hfrom, Regex.boundary_start_of_findAt hm,
    Nat.le_trans hm' (Nat.le_trans hbody hend), hboundary⟩

theorem lineStart_of_nextSpan {pos : Nat} {s : Span} (hb : b.opening.pattern.startsLine = true)
    (h : b.nextSpan code pos = some s) : LineStart code s.start := by
  obtain ⟨_, m, _, _, _, hm, _, rfl⟩ := exists_of_spanFrom h
  exact Regex.lineStart_of_findAt hb hm

theorem mem_of_earliest {spans : List Span} {s : Span} (h : earliest spans = some s) :
    s ∈ spans := by
  induction spans with
  | nil => cases h
  | cons first rest ih =>
    rw [earliest] at h
    split at h
    · obtain rfl := Option.some.inj h
      exact List.mem_cons_self
    · rename_i t ht
      split at h
      · exact List.mem_cons_of_mem _ (ih (ht.trans h))
      · obtain rfl := Option.some.inj h
        exact List.mem_cons_self

theorem exists_of_nextOf {kinds : List BlockComment} {pos : Nat} {s : Span}
    (h : nextOf kinds code pos = some s) : ∃ b ∈ kinds, b.nextSpan code pos = some s :=
  List.mem_filterMap.1 (mem_of_earliest h)

theorem nextOf_singleton (b : BlockComment) (code : Text) (pos : Nat) :
    nextOf [b] code pos = b.nextSpan code pos := by
  rw [nextOf, List.filterMap_cons]
  cases b.nextSpan code pos <;> rfl

/-- The search starts at the beginning of the code. -/
theorem spans_eq_cons {kinds : List BlockComment} {s : Span} (hne : code ≠ [])
    (h : nextOf kinds code 0 = some s) (hlt : s.start < s.stop) :
    spans kinds code = s :: spansFrom kinds code code.length s.stop := by
  have hpos : 0 < Text.size code := Nat.pos_of_ne_zero (mt Text.size_eq_zero_iff.1 hne)
  rw [spans, spansFrom, if_pos hpos, h]
  simp only [if_pos hlt]

theorem spansFrom_eq_nil {kinds : List BlockComment} {pos : Nat}
    (h : nextOf kinds code pos = none) (fuel : Nat) : spansFrom kinds code fuel pos = [] := by
  cases fuel with
  | zero => rfl
  | succ fuel =>
    rw [spansFrom, h]
    split <;> rfl

theorem orderly_spansFrom (kinds : List BlockComment) (code : Text) (fuel pos : Nat) :
    Span.Orderly code pos (spansFrom kinds code fuel pos) := by
  induction fuel generalizing pos with
  | zero => trivial
  | succ fuel ih =>
    rw [spansFrom]
    split
    · split
      · trivial
      · rename_i s hs
        obtain ⟨b, _, hspan⟩ := exists_of_nextOf hs
        obtain ⟨hpos, hstart, hle, hstop⟩ := bounds_of_nextSpan hspan
        refine ⟨hpos, hstart, hle, hstop, (ih _).mono ?_⟩
        split
        · exact Nat.le_refl _
        · have hnext := le_advance code s.start
          omega
    · trivial

theorem exists_of_mem_spansFrom {kinds : List BlockComment} {fuel pos : Nat} {s : Span}
    (hs : s ∈ spansFrom kinds code fuel pos) : ∃ b ∈ kinds, ∃ pos, b.nextSpan code pos = some s := by
  induction fuel generalizing pos with
  | zero => cases hs
  | succ fuel ih =>
    rw [spansFrom] at hs
    split at hs
    · split at hs
      · cases hs
      · rename_i first hfirst
        rcases List.mem_cons.1 hs with rfl | hs
        · obtain ⟨b, hb, hspan⟩ := exists_of_nextOf hfirst
          exact ⟨b, hb, pos, hspan⟩
        · exact ih hs
    · cases hs

theorem exists_of_mem_spans {kinds : List BlockComment} {s : Span} (hs : s ∈ spans kinds code) :
    ∃ b ∈ kinds, ∃ pos, b.nextSpan code pos = some s :=
  exists_of_mem_spansFrom hs

theorem exists_nextSpan_of_mem_spans {s : Span} (hs : s ∈ spans [b] code) :
    ∃ pos, b.nextSpan code pos = some s := by
  obtain ⟨b', hb, hspan⟩ := exists_of_mem_spans hs
  rwa [List.mem_singleton.1 hb] at hspan

theorem orderly_spans (kinds : List BlockComment) (code : Text) :
    Span.Orderly code 0 (spans kinds code) :=
  orderly_spansFrom kinds code _ 0

theorem lineStart_of_mem_spans {kinds : List BlockComment}
    (hkinds : ∀ b ∈ kinds, b.opening.pattern.startsLine = true) {s : Span}
    (hs : s ∈ spans kinds code) : LineStart code s.start := by
  obtain ⟨b, hb, pos, hspan⟩ := exists_of_mem_spans hs
  exact lineStart_of_nextSpan (hkinds b hb) hspan

theorem closed_extract {kinds : List BlockComment}
    (hkinds : ∀ b ∈ kinds, b.opening.pattern.startsLine = true) {sections : List Section}
    (h : Section.Closed sections) : Section.Closed (extract kinds sections) := by
  rw [extract]
  split
  · exact h
  · exact h.flatMap fun s _ => Section.closes_splitBySpans (orderly_spans kinds s.code)
      fun _ hspan => lineStart_of_mem_spans hkinds hspan

theorem spans_nil (code : Text) : spans [] code = [] := spansFrom_eq_nil rfl _

/-- Where no start delimiter is found, there are no comments. -/
theorem spans_eq_nil {kinds : List BlockComment}
    (h : ∀ b ∈ kinds, b.opening.findAt code 0 = none) : spans kinds code = [] := by
  refine spansFrom_eq_nil (Option.eq_none_iff_forall_ne_some.2 fun s hs => ?_) _
  obtain ⟨b, hb, hspan⟩ := exists_of_nextOf hs
  rw [nextSpan, spanFrom, if_neg (Nat.not_lt_zero _), h b hb] at hspan
  cases hspan

theorem extract_singleton {kinds : List BlockComment} {s : Section} (h : spans kinds s.code = []) :
    extract kinds [s] = [s] := by
  rw [extract, List.flatMap_singleton, h]
  exact ite_self _

/-- Taking paired comments out leaves a row in the code exactly where one of them exposes it. -/
theorem free_extract_iff {kinds : List BlockComment}
    (hkinds : ∀ b ∈ kinds, b.opening.pattern.startsLine = true) {row : Text}
    {sections : List Section} (h : ∀ s ∈ sections, Text.Free row s.code) :
    (∀ p ∈ extract kinds sections, Text.Free row p.code) ↔
      ∀ s ∈ sections, ∀ span ∈ spans kinds s.code,
        ¬ Text.Opens row (Text.after span.stop s.code) := by
  have hsplit (s : Section) (hs : s ∈ sections) :=
    Section.free_splitBySpans_iff (h s hs) (orderly_spans kinds s.code)
      (fun _ hspan => lineStart_of_mem_spans hkinds hspan) true
  rw [extract]
  split
  · rename_i hempty
    refine iff_of_true h fun s _ span hspan => ?_
    rw [List.isEmpty_iff.1 hempty, spans_nil] at hspan
    cases hspan
  · simp only [List.forall_mem_flatMap]
    exact forall₂_congr hsplit

end Marginalia.BlockComment
