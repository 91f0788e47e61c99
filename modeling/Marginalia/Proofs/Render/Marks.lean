import Marginalia.Proofs.Regex.Literal
import Marginalia.Proofs.Text.Newlines
import Marginalia.Regex.Leftmost
import Marginalia.Render.Divider

/-! # Marks of dividers

The divider pattern finds a mark together with all the newlines around it, and nothing else.
-/

namespace Marginalia

open Text (Newlines dropNewlines size)

namespace Pattern

theorem runs_sequence_optional (p : Pattern) (qs : List Pattern) (t : Thread) :
    (sequence (optional p :: qs)).runs t =
      (sequence (p :: qs)).runs t ++ (sequence qs).runs t := by
  rw [runs_sequence_cons, runs_sequence_cons, optional, opt, if_pos rfl, runs, runs,
    List.flatMap_append, List.flatMap_singleton]

/-- An optional character in the middle of a text spells two texts. -/
theorem runs_literal_optional (text tail : Text) (c : Char) (t : Thread) :
    (sequence (text.map char ++ optional (char c) :: tail.map char)).runs t =
      (sequence ((text ++ c :: tail).map char)).runs t ++
        (sequence ((text ++ tail).map char)).runs t := by
  rw [List.map_append, List.map_append, List.map_cons, runs_sequence_append, runs_sequence_append,
    runs_sequence_append, runs_literal]
  split
  · simp only [List.flatMap_singleton, runs_sequence_optional]
  · rfl

end Pattern

namespace Divider

def opening : Text := "<span class=\"c"

def ending (delimiter : Text) : Text := "\">" ++ comment delimiter ++ "</span>"

/-- A divider as the plain highlighter marks it. -/
def mark (delimiter : Text) : Text := opening ++ '1' :: ending delimiter

/-- The other mark that the pattern finds. -/
def shortMark (delimiter : Text) : Text := opening ++ ending delimiter

/-- Whether the first thing after newlines is a mark. -/
def Marks (delimiter t : Text) : Prop :=
  mark delimiter <+: dropNewlines t ∨ shortMark delimiter <+: dropNewlines t

variable {delimiter : Text}

theorem mark_ne_nil : mark delimiter ≠ [] := nofun

theorem head?_mark : (mark delimiter).head? = some '<' := rfl

theorem head?_shortMark : (shortMark delimiter).head? = some '<' := rfl

theorem not_startsWith_of_head {part t : Text} (hpart : part.head? = some '<')
    (h : t.head? ≠ some '<') : ¬ part <+: t := by
  rintro ⟨u, rfl⟩
  rw [List.head?_append, hpart] at h
  exact h rfl

theorem pattern_eq (delimiter : Text) :
    pattern delimiter = .sequence (.star true (.set (.char '\n')) ::
      ((opening.map .char ++ .optional (.char '1') :: (ending delimiter).map .char) ++
        [.star true (.set (.char '\n'))])) := by
  have hassoc (p q r : Pattern) (ps qs : List Pattern) :
      [p] ++ ps ++ [q] ++ qs ++ [r] = p :: ((ps ++ q :: qs) ++ [r]) := by simp
  exact congrArg Pattern.sequence (hassoc _ _ _ _ _)

theorem loopsRead_pattern (delimiter : Text) : (pattern delimiter).loopsRead = true := by
  rw [pattern_eq]
  refine Pattern.loopsRead_sequence fun p hp => ?_
  simp only [List.mem_cons, List.mem_append, List.mem_map, List.not_mem_nil, or_false] at hp
  rcases hp with rfl | (⟨_, _, rfl⟩ | rfl | ⟨_, _, rfl⟩) | rfl <;> rfl

/-- The runs of the pattern: over the newlines, one of the two marks and more newlines. -/
theorem runs_pattern {t : Thread} {run rest : Text} (hrun : Newlines run)
    (hrest : rest.head? ≠ some '\n') (h : t.cursor.rest = run ++ rest) :
    (pattern delimiter).runs t =
      ((if mark delimiter <+: rest then [t.skip (run.length + (mark delimiter).length)] else []) ++
        if shortMark delimiter <+: rest then [t.skip (run.length + (shortMark delimiter).length)]
        else []).flatMap fun u => (Pattern.star true (.set (.char '\n'))).runs u := by
  have hstart (u : Thread) (hu : u.cursor.rest.head?.any (CharSet.char '\n').contains = true) :
      (Pattern.sequence ((opening.map .char ++ .optional (.char '1') ::
        (ending delimiter).map .char) ++ [.star true (.set (.char '\n'))])).runs u = [] := by
    have hhead : u.cursor.rest.head? ≠ some '<' := by
      rw [Pattern.any_contains_char.1 hu]
      decide
    rw [Pattern.runs_sequence_append, Pattern.runs_literal_optional, Pattern.runs_literal,
      Pattern.runs_literal, ← mark, ← shortMark, if_neg (not_startsWith_of_head head?_mark hhead),
      if_neg (not_startsWith_of_head head?_shortMark hhead)]
    rfl
  have hskip : (t.skip run.length).cursor.rest = rest := by
    rw [Thread.rest_skip, h, List.drop_left]
  have hnewlines : ∀ c ∈ run, (CharSet.char '\n').contains c = true := hrun
  rw [pattern_eq, Pattern.runs_sequence_cons,
    Pattern.flatMap_runs_star hstart hnewlines (Pattern.any_contains_char_eq_false.2 hrest) h,
    Pattern.runs_sequence_append, Pattern.runs_literal_optional, Pattern.runs_literal,
    Pattern.runs_literal, ← mark, ← shortMark, hskip, Thread.skip_skip, Thread.skip_skip]
  rfl

theorem matchHere_of_mark {c : Cursor} {run run' rest : Text} (hrun : Newlines run)
    (hrun' : Newlines run') (hrest : rest.head? ≠ some '\n')
    (h : c.rest = run ++ (mark delimiter ++ (run' ++ rest))) :
    (pattern delimiter).matchHere c =
      some ⟨c.pos, c.pos + size (run ++ (mark delimiter ++ run')), []⟩ := by
  have hhead : (mark delimiter ++ (run' ++ rest)).head? ≠ some '\n' := by
    change some '<' ≠ some '\n'
    decide
  have hnewlines : ∀ d ∈ run', (CharSet.char '\n').contains d = true := hrun'
  have hafter : ((Thread.start c).skip (run.length + (mark delimiter).length)).cursor.rest =
      run' ++ rest := by
    rw [Thread.rest_skip, ← List.length_append]
    change c.rest.drop _ = _
    rw [h, ← List.append_assoc, List.drop_left]
  have hpos : ((Thread.start c).skip
      (run.length + (mark delimiter).length + run'.length)).cursor.pos =
      c.pos + size (run ++ (mark delimiter ++ run')) := by
    have hsplit : (Thread.start c).cursor.rest = (run ++ (mark delimiter ++ run')) ++ rest := by
      change c.rest = _
      rw [h, List.append_assoc, List.append_assoc]
    rw [Nat.add_assoc, ← List.length_append, ← List.length_append]
    exact Thread.pos_skip hsplit
  rw [Pattern.matchHere, runs_pattern hrun hhead h, if_pos (List.prefix_append _ _),
    List.singleton_append, List.flatMap_cons, List.head?_append,
    Pattern.head?_runs_star hnewlines (Pattern.any_contains_char_eq_false.2 hrest) hafter,
    Option.some_or, Option.map_some, Thread.skip_skip, Match.ofThread, hpos, Thread.captures_skip]
  rfl

theorem marks_of_matchHere {c : Cursor} {m : Match}
    (h : (pattern delimiter).matchHere c = some m) : Marks delimiter c.rest := by
  obtain ⟨run, hrun, hsplit, hhead⟩ := Text.exists_dropNewlines c.rest
  rw [Marks]
  by_contra hnone
  rw [not_or] at hnone
  rw [Pattern.matchHere, runs_pattern hrun hhead hsplit, if_neg hnone.1, if_neg hnone.2] at h
  cases h

end Divider

end Marginalia
