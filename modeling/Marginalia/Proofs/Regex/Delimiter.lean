import Marginalia.Proofs.Regex.Literal
import Marginalia.Proofs.Regex.Place
import Marginalia.Proofs.Text.First
import Marginalia.Proofs.Text.Leading

/-! # Delimiters in their places

A search for a pattern is one for the first place where it matches (`Regex.findAt_eq_first?`). The
place lies between two texts, and a delimiter that stands there moves its end from the one to the
other. Indentation before a delimiter is read in just one way (`Pattern.runs_opening`).
-/

namespace Marginalia

open Text (EndsLine size isIndentChar first?)

/-- The cursor between two texts. -/
def Cursor.between (before rest : Text) : Cursor := ⟨size before, before.getLast?, rest⟩

@[simp] theorem Cursor.rest_between (before rest : Text) : (between before rest).rest = rest := rfl

theorem Cursor.exists_between {t : Text} {c : Cursor} (h : Pattern.Reaches (.origin t) c) :
    ∃ before rest, t = before ++ rest ∧ c = .between before rest := by
  obtain ⟨taken, hrest, hpos, hprev⟩ := h
  refine ⟨taken, c.rest, hrest, ?_⟩
  simp only [origin, Nat.zero_add, Option.or_none] at hpos hprev
  rw [between, ← hpos, ← hprev]

theorem Thread.skip_between (before taken rest : Text) (captures : List Capture)
    (entered : List Nat) :
    (Thread.mk (.between before (taken ++ rest)) captures entered).skip taken.length =
      ⟨.between (before ++ taken) rest, captures, entered⟩ := by
  induction taken generalizing before with
  | nil => rw [List.append_nil, List.nil_append, List.length_nil, skip]
  | cons c taken ih =>
    have hnext : (Thread.mk (.between before (c :: (taken ++ rest))) captures entered).advance =
        ⟨.between (before ++ [c]) (taken ++ rest), captures, entered⟩ := by
      rw [advance, Cursor.next, Cursor.between, Cursor.between, Text.size_append,
        List.getLast?_concat]
      rfl
    rw [List.cons_append, List.length_cons, skip, hnext, ih, List.append_assoc,
      List.singleton_append]

namespace Pattern

variable {before rest : Text}

theorem lineStart_between : Look.lineStart.holds (.between before rest) = true ↔ EndsLine before := by
  rw [Look.holds, Cursor.between, EndsLine]
  cases before.getLast? <;> simp

theorem runs_literal_between (text before rest : Text) (captures : List Capture) :
    (sequence (text.map char)).runs ⟨.between before (text ++ rest), captures, []⟩ =
      [⟨.between (before ++ text) rest, captures, []⟩] := by
  rw [runs_literal]
  simp only [Cursor.rest_between, List.prefix_append, if_true, Thread.skip_between]

theorem runs_literal_eq_nil {text : Text} {t : Thread} (h : ¬ text <+: t.cursor.rest) :
    (sequence (text.map char)).runs t = [] := by
  rw [runs_literal, if_neg h]

theorem matchHere_literal (text : Text) :
    (sequence (text.map char)).matchHere (.between before rest) =
      if text <+: rest then some ⟨size before, size (before ++ text), []⟩ else none := by
  rw [matchHere]
  split
  · rename_i h
    obtain ⟨rest, rfl⟩ := h
    rw [Thread.start, runs_literal_between]
    rfl
  · rename_i h
    rw [runs_literal_eq_nil h]
    rfl

/-- What cannot go on with indentation goes on right after it, so that there is just one way to read
it. -/
theorem runs_opening {ps : List Pattern} {run : Text}
    (hps : ∀ t : Thread, t.cursor.rest.head?.any isIndentChar = true → (sequence ps).runs t = [])
    (hrun : ∀ c ∈ run, isIndentChar c = true) (hrest : rest.head?.any isIndentChar = false) :
    (sequence (look .lineStart :: group 1 indent :: ps)).runs
        (.start (.between before (run ++ rest))) =
      if EndsLine before then
        (sequence ps).runs
          ⟨.between (before ++ run) rest, [⟨1, size before, size (before ++ run)⟩], []⟩
      else [] := by
  have hlook : Look.lineStart.holds (Thread.start (.between before (run ++ rest))).cursor = true ↔
      EndsLine before := lineStart_between
  have hleave (t : Thread) (ht : t.cursor.rest.head?.any CharSet.indent.contains = true) :
      (sequence ps).runs (t.leave 1) = [] := hps _ (by rwa [Thread.cursor_leave])
  rw [runs_sequence_cons, runs]
  simp only [hlook]
  split
  · rw [List.flatMap_singleton, runs_sequence_cons, runs, List.flatMap_map, indent,
      flatMap_runs_star hleave hrun hrest rfl, Thread.start, Thread.enter, Thread.skip_between]
    rfl
  · rfl

theorem matchHere_opening {start run : Text} (hne : start ≠ [])
    (hflush : start.head?.any isIndentChar = false) (hrun : ∀ c ∈ run, isIndentChar c = true)
    (hrest : rest.head?.any isIndentChar = false) :
    (sequence (look .lineStart :: group 1 indent :: start.map char)).matchHere
        (.between before (run ++ rest)) =
      if EndsLine before ∧ start <+: rest then
        some ⟨size before, size (before ++ run ++ start),
          [⟨1, size before, size (before ++ run)⟩]⟩
      else none := by
  have hstart (t : Thread) (ht : t.cursor.rest.head?.any isIndentChar = true) :
      (sequence (start.map char)).runs t = [] := by
    obtain ⟨c, start, rfl⟩ := List.exists_cons_of_ne_nil hne
    refine runs_literal_eq_nil ?_
    rintro ⟨tail, htail⟩
    rw [← htail, List.cons_append, List.head?_cons] at ht
    rw [List.head?_cons] at hflush
    exact absurd (ht.symm.trans hflush) (by decide)
  rw [matchHere, runs_opening hstart hrun hrest]
  by_cases hline : EndsLine before
  · rw [if_pos hline]
    by_cases h : start <+: rest
    · obtain ⟨tail, rfl⟩ := h
      rw [runs_literal_between, if_pos ⟨hline, List.prefix_append start tail⟩]
      rfl
    · rw [runs_literal_eq_nil h, if_neg fun h' => h h'.2]
      rfl
  · rw [if_neg hline, if_neg fun h => hline h.1]
    rfl

theorem leftmost_eq_first? (p : Pattern) (before rest : Text) :
    p.leftmost (size before) before.getLast? rest =
      first? (fun before rest => p.matchHere (.between before rest)) before rest := by
  induction rest generalizing before with
  | nil => rfl
  | cons c rest ih =>
    have hnext := ih (before ++ [c])
    rw [Text.size_append, Text.size_cons, Text.size_nil, Nat.add_zero, List.getLast?_concat]
      at hnext
    rw [leftmost, first?, hnext]
    rfl

theorem exists_matchHere_of_leftmost {p : Pattern} {pos : Nat} {prev : Option Char} {t : Text}
    {m : Match} (h : p.leftmost pos prev t = some m) :
    ∃ c, Reaches ⟨pos, prev, t⟩ c ∧ p.matchHere c = some m := by
  induction t generalizing pos prev with
  | nil => exact ⟨_, .refl _, h⟩
  | cons d rest ih =>
    rw [leftmost, Option.or_eq_some_iff] at h
    rcases h with h | ⟨_, h⟩
    · exact ⟨_, .refl _, h⟩
    · obtain ⟨c, hc, hm⟩ := ih h
      exact ⟨c, (reaches_tail pos prev d rest).trans hc, hm⟩

end Pattern

namespace Regex

variable {re : Regex}

theorem findAt_eq_first? (h : re.pattern.loopsRead = true) (before rest : Text) :
    re.findAt (before ++ rest) (size before) =
      first? (fun before rest => re.pattern.matchHere (.between before rest)) before rest := by
  rw [findAt, findFrom_eq_leftmost h, Cursor.ofOffset_append]
  exact re.pattern.leftmost_eq_first? before rest

theorem exists_matchHere_of_findAt (h : re.pattern.loopsRead = true) {t : Text} {offset : Nat}
    {m : Match} (hm : re.findAt t offset = some m) :
    ∃ before rest, t = before ++ rest ∧ re.pattern.matchHere (.between before rest) = some m := by
  rw [findAt, findFrom_eq_leftmost h] at hm
  obtain ⟨c, hc, hm⟩ := Pattern.exists_matchHere_of_leftmost hm
  obtain ⟨before, rest, rfl, rfl⟩ :=
    Cursor.exists_between ((Cursor.reaches_ofOffset t offset).trans hc)
  exact ⟨before, rest, rfl, hm⟩

end Regex

end Marginalia
