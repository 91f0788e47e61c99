import Marginalia.Regex.Pattern

/-! # Patterns that spell texts

A pattern that spells a text has one run, over that text, or none. A greedy loop over a set of
characters prefers to read all of them, and whatever does not start with one goes on from there.
-/

namespace Marginalia

namespace Thread

def skip : Nat → Thread → Thread
  | 0, t => t
  | n + 1, t => t.advance.skip n

theorem skip_skip (m n : Nat) (t : Thread) : (t.skip m).skip n = t.skip (m + n) := by
  induction m generalizing t with
  | zero => rw [Nat.zero_add, skip]
  | succ m ih => rw [skip, ih, Nat.succ_add, skip]

theorem captures_skip (n : Nat) (t : Thread) : (t.skip n).captures = t.captures := by
  induction n generalizing t with
  | zero => rfl
  | succ n ih => exact ih t.advance

theorem rest_advance (t : Thread) : t.advance.cursor.rest = t.cursor.rest.drop 1 := by
  rw [cursor_advance, Cursor.next]
  split <;> simp_all

theorem rest_skip (n : Nat) (t : Thread) : (t.skip n).cursor.rest = t.cursor.rest.drop n := by
  induction n generalizing t with
  | zero => rfl
  | succ n ih => rw [skip, ih, rest_advance, List.drop_drop, Nat.add_comm]

theorem pos_skip {t : Thread} {taken rest : Text} (h : t.cursor.rest = taken ++ rest) :
    (t.skip taken.length).cursor.pos = t.cursor.pos + Text.size taken := by
  induction taken generalizing t with
  | nil => rfl
  | cons c taken ih =>
    have hadvance : t.advance.cursor = ⟨t.cursor.pos + c.utf8Size, some c, taken ++ rest⟩ := by
      rw [cursor_advance, Cursor.next, h]
      rfl
    rw [List.length_cons, skip, ih (by rw [hadvance]), hadvance, Text.size_cons, Nat.add_assoc]

end Thread

namespace Pattern

theorem runs_sequence_cons (p : Pattern) (ps : List Pattern) (t : Thread) :
    (sequence (p :: ps)).runs t = (p.runs t).flatMap fun u => (sequence ps).runs u := by
  cases ps with
  | nil => simp [sequence, runs]
  | cons q ps => rfl

theorem runs_sequence_append (ps qs : List Pattern) (t : Thread) :
    (sequence (ps ++ qs)).runs t =
      ((sequence ps).runs t).flatMap fun u => (sequence qs).runs u := by
  induction ps generalizing t with
  | nil => simp [sequence, runs]
  | cons p ps ih =>
    rw [List.cons_append, runs_sequence_cons, runs_sequence_cons, List.flatMap_assoc]
    simp only [ih]

theorem loopsRead_sequence {ps : List Pattern} (h : ∀ p ∈ ps, p.loopsRead = true) :
    (sequence ps).loopsRead = true := by
  induction ps with
  | nil => rfl
  | cons p ps ih =>
    have ih := ih fun q hq => h q (List.mem_cons_of_mem _ hq)
    cases ps with
    | nil => exact h p List.mem_cons_self
    | cons q ps => exact Bool.and_eq_true_iff.2 ⟨h p List.mem_cons_self, ih⟩

theorem runs_char (c : Char) (t : Thread) :
    (char c).runs t = if t.cursor.rest.head? = some c then [t.skip 1] else [] := by
  have hcontains (d : Char) : (CharSet.char c).contains d = true ↔ d = c := by
    simp [CharSet.contains]
  rw [char, runs]
  cases t.cursor.rest with
  | nil => rfl
  | cons d rest => simp [hcontains, Thread.skip]

theorem runs_literal (text : Text) (t : Thread) :
    (sequence (text.map char)).runs t =
      if text <+: t.cursor.rest then [t.skip text.length] else [] := by
  induction text generalizing t with
  | nil => rfl
  | cons c text ih =>
    rw [List.map_cons, runs_sequence_cons, runs_char]
    cases hrest : t.cursor.rest with
    | nil => simp
    | cons d rest =>
      by_cases hd : d = c
      · subst hd
        have htail : (t.skip 1).cursor.rest = rest := by
          rw [Thread.rest_skip, hrest]
          rfl
        rw [if_pos List.head?_cons, List.flatMap_singleton, ih, htail, Thread.skip_skip,
          List.length_cons, Nat.add_comm]
        simp only [List.cons_prefix_cons, true_and]
      · simp [hd, Ne.symm hd]

theorem any_contains_char {c : Char} {t : Text} :
    t.head?.any (CharSet.char c).contains = true ↔ t.head? = some c := by
  cases t <;> simp [CharSet.contains]

theorem any_contains_char_eq_false {c : Char} {t : Text} :
    t.head?.any (CharSet.char c).contains = false ↔ t.head? ≠ some c := by
  rw [← Bool.not_eq_true, any_contains_char]

section Loop

variable {s : CharSet} {t : Thread}

theorem runs_star_of_head (h : t.cursor.rest.head?.any s.contains = true) :
    (star true (set s)).runs t = (star true (set s)).runs (t.skip 1) ++ [t] := by
  obtain ⟨c, rest, hrest⟩ : ∃ c rest, t.cursor.rest = c :: rest := by
    cases ht : t.cursor.rest with
    | nil => simp [ht] at h
    | cons c rest => exact ⟨c, rest, rfl⟩
  have hround : (set s).runs t = [t.skip 1] := by rw [runs, if_pos h, Thread.skip, Thread.skip]
  rw [runs, hrest, List.length_cons, iterate, hround, List.flatMap_singleton, runs,
    Thread.rest_skip, hrest, List.drop_one, List.tail_cons, if_pos rfl]

theorem runs_star_of_not_head (h : t.cursor.rest.head?.any s.contains = false) :
    (star true (set s)).runs t = [t] := by
  rw [runs]
  cases hlength : t.cursor.rest.length with
  | zero => rfl
  | succ n => simp [iterate, runs, h]

theorem runs_star_append {run rest : Text} (hrun : ∀ c ∈ run, s.contains c = true)
    (hrest : rest.head?.any s.contains = false) (h : t.cursor.rest = run ++ rest) :
    ∃ others, (star true (set s)).runs t = t.skip run.length :: others ∧
      ∀ u ∈ others, u.cursor.rest.head?.any s.contains = true := by
  induction run generalizing t with
  | nil =>
    rw [List.nil_append] at h
    exact ⟨[], runs_star_of_not_head (by rwa [h]), by simp⟩
  | cons c run ih =>
    rw [List.forall_mem_cons] at hrun
    have htail : (t.skip 1).cursor.rest = run ++ rest := by
      rw [Thread.rest_skip, h, List.cons_append, List.drop_one, List.tail_cons]
    obtain ⟨others, hothers, hall⟩ := ih hrun.2 htail
    have hhead : t.cursor.rest.head?.any s.contains = true := by
      rw [h, List.cons_append, List.head?_cons, Option.any_some]
      exact hrun.1
    refine ⟨others ++ [t], ?_, ?_⟩
    · rw [runs_star_of_head hhead, hothers, Thread.skip_skip, List.length_cons, Nat.add_comm,
        List.cons_append]
    · intro u hu
      rcases List.mem_append.1 hu with hu | hu
      · exact hall u hu
      · rwa [List.mem_singleton.1 hu]

theorem head?_runs_star {run rest : Text} (hrun : ∀ c ∈ run, s.contains c = true)
    (hrest : rest.head?.any s.contains = false) (h : t.cursor.rest = run ++ rest) :
    ((star true (set s)).runs t).head? = some (t.skip run.length) := by
  obtain ⟨others, hothers, _⟩ := runs_star_append hrun hrest h
  rw [hothers, List.head?_cons]

/-- What cannot go on before another round goes on where the loop has read all it can. -/
theorem flatMap_runs_star {g : Thread → List Thread}
    (hg : ∀ u : Thread, u.cursor.rest.head?.any s.contains = true → g u = []) {run rest : Text}
    (hrun : ∀ c ∈ run, s.contains c = true) (hrest : rest.head?.any s.contains = false)
    (h : t.cursor.rest = run ++ rest) :
    ((star true (set s)).runs t).flatMap g = g (t.skip run.length) := by
  obtain ⟨others, hothers, hall⟩ := runs_star_append hrun hrest h
  have hnone : others.flatMap g = [] := List.flatMap_eq_nil_iff.2 fun u hu => hg u (hall u hu)
  rw [hothers, List.flatMap_cons, hnone, List.append_nil]

theorem runs_plus (greedy : Bool) (p : Pattern) (t : Thread) :
    (plus greedy p).runs t = (p.runs t).flatMap (star greedy p).runs := rfl

/-- A loop that has to read something goes on like one that need not, once it has. -/
theorem runs_plus_append {c : Char} {run rest : Text} (hc : s.contains c = true)
    (h : t.cursor.rest = c :: run ++ rest) :
    (plus true (set s)).runs t = (star true (set s)).runs (t.skip 1) ∧
      (t.skip 1).cursor.rest = run ++ rest := by
  have hround : (set s).runs t = [t.skip 1] := by
    rw [runs, h, if_pos (by exact hc), Thread.skip, Thread.skip]
  refine ⟨by rw [runs_plus, hround, List.flatMap_singleton], ?_⟩
  rw [Thread.rest_skip, h]
  rfl

theorem head?_runs_plus {run rest : Text} (hne : run ≠ []) (hrun : ∀ c ∈ run, s.contains c = true)
    (hrest : rest.head?.any s.contains = false) (h : t.cursor.rest = run ++ rest) :
    ((plus true (set s)).runs t).head? = some (t.skip run.length) := by
  obtain ⟨c, run, rfl⟩ := List.exists_cons_of_ne_nil hne
  rw [List.forall_mem_cons] at hrun
  obtain ⟨hruns, htail⟩ := runs_plus_append hrun.1 h
  rw [hruns, head?_runs_star hrun.2 hrest htail, Thread.skip_skip, Nat.add_comm, List.length_cons]

theorem flatMap_runs_plus {g : Thread → List Thread}
    (hg : ∀ u : Thread, u.cursor.rest.head?.any s.contains = true → g u = []) {run rest : Text}
    (hne : run ≠ []) (hrun : ∀ c ∈ run, s.contains c = true)
    (hrest : rest.head?.any s.contains = false) (h : t.cursor.rest = run ++ rest) :
    ((plus true (set s)).runs t).flatMap g = g (t.skip run.length) := by
  obtain ⟨c, run, rfl⟩ := List.exists_cons_of_ne_nil hne
  rw [List.forall_mem_cons] at hrun
  obtain ⟨hruns, htail⟩ := runs_plus_append hrun.1 h
  rw [hruns, flatMap_runs_star hg hrun.2 hrest htail, Thread.skip_skip, Nat.add_comm,
    List.length_cons]

end Loop

end Pattern

end Marginalia
