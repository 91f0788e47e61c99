import Marginalia.Comment.Decoration
import Marginalia.Proofs.Regex.Delimiter
import Marginalia.Proofs.Regex.Replace
import Marginalia.Proofs.Text.Linewise

/-! # Decoration is stripped line by line

A decorated line is spaces and tabs, a run of one mark, and then nothing or text set off by a space
or a tab. Stripping leaves such a line with that text and any other line as it is
(`strip_linewise`).
-/

namespace Marginalia.Decoration

open Text (isIndentChar size)

/-- A line on which `rest` stands behind decoration. The run takes all the marks there are, since
`rest` does not start with one. -/
inductive Decorated : Text → Text → Prop
  | intro {blanks run rest : Text} {mark : Char} (blank : ∀ c ∈ blanks, isIndentChar c = true)
    (mark_mem : mark ∈ ['/', '*']) (ne_nil : run ≠ []) (eq_mark : ∀ c ∈ run, c = mark)
    (apart : rest.head?.all isIndentChar = true) : Decorated (blanks ++ (run ++ rest)) rest

/-- What stands behind the marks that a text starts with. -/
def behind? : Text → Option Text
  | [] => none
  | mark :: t =>
    if mark ∈ ['/', '*'] ∧ (t.dropWhile (· == mark)).head?.all isIndentChar then
      some (t.dropWhile (· == mark))
    else none

def rest? (line : Text) : Option Text := behind? (line.dropWhile isIndentChar)

/-- A line without its decoration. -/
def bare (line : Text) : Text := (rest? line).getD line

theorem not_isIndentChar_of_mark {mark : Char} (h : mark ∈ ['/', '*']) :
    isIndentChar mark = false := by
  rcases List.mem_pair.1 h with rfl | rfl <;> rfl

theorem eq_of_mem_run (mark : Char) (t : Text) :
    ∀ c ∈ mark :: t.takeWhile (· == mark), c = mark := by
  rw [List.forall_mem_cons]
  exact ⟨rfl, fun c hc => eq_of_beq (List.all_eq_true.1 List.all_takeWhile c hc)⟩

theorem dropWhile_run {run rest : Text} {mark : Char} (hrun : ∀ c ∈ run, c = mark)
    (hrest : rest.head? ≠ some mark) : (run ++ rest).dropWhile (· == mark) = rest := by
  have hbeq : ∀ c ∈ run, (c == mark) = true := fun c hc => beq_iff_eq.2 (hrun c hc)
  have hhead : rest.head?.any (· == mark) = false := by
    rw [Option.any_eq_false]
    intro c hc
    rw [beq_eq_false_iff_ne]
    rintro rfl
    exact hrest hc
  exact (Text.takeWhile_leading hbeq hhead).2

theorem head?_ne_of_apart {rest : Text} {mark : Char} (hmark : mark ∈ ['/', '*'])
    (happart : rest.head?.all isIndentChar = true) : rest.head? ≠ some mark := by
  intro hhead
  rw [hhead, Option.all_some, not_isIndentChar_of_mark hmark] at happart
  cases happart

theorem rest?_eq_some_iff {line rest : Text} : rest? line = some rest ↔ Decorated line rest := by
  constructor
  · intro h
    obtain ⟨blanks, tail, rfl, hblanks, htail⟩ := Text.exists_leading Text.isIndentChar line
    obtain ⟨_, hdrop⟩ := Text.takeWhile_leading hblanks htail
    rw [rest?, hdrop] at h
    cases tail with
    | nil => cases h
    | cons mark t =>
      rw [behind?] at h
      split at h
      · rename_i hmark
        obtain rfl := Option.some.inj h
        have hline := Decorated.intro hblanks hmark.1 (List.cons_ne_nil _ _) (eq_of_mem_run mark t)
          hmark.2
        rwa [List.cons_append, List.takeWhile_append_dropWhile] at hline
      · cases h
  · intro h
    cases h with
    | @intro blanks run rest mark hblanks hmark hne hrun hrest =>
      obtain ⟨c, run, rfl⟩ := List.exists_cons_of_ne_nil hne
      obtain ⟨rfl, hrun⟩ := List.forall_mem_cons.1 hrun
      have htail : (c :: (run ++ rest)).head?.any isIndentChar = false :=
        not_isIndentChar_of_mark hmark
      obtain ⟨_, hdrop⟩ := Text.takeWhile_leading hblanks htail
      rw [List.cons_append, rest?, hdrop, behind?,
        dropWhile_run hrun (head?_ne_of_apart hmark hrest), if_pos ⟨hmark, hrest⟩]

theorem bare_of_decorated {line rest : Text} (h : Decorated line rest) : bare line = rest := by
  rw [bare, rest?_eq_some_iff.2 h, Option.getD_some]

theorem bare_of_not_decorated {line : Text} (h : ∀ rest, ¬Decorated line rest) :
    bare line = line := by
  have hnone : rest? line = none :=
    Option.eq_none_iff_forall_ne_some.2 fun rest hrest => h rest (rest?_eq_some_iff.1 hrest)
  rw [bare, hnone, Option.getD_none]

theorem exists_bare (line : Text) : ∃ taken, line = taken ++ bare line := by
  cases h : rest? line with
  | none =>
    refine ⟨[], ?_⟩
    rw [bare, h]
    rfl
  | some rest =>
    rw [bare, h]
    cases rest?_eq_some_iff.1 h with
    | @intro blanks run => exact ⟨blanks ++ run, (List.append_assoc _ _ _).symm⟩

/-! ## What the pattern matches in a line -/

section Runs

open Pattern

def marks : Pattern := .alt (.plus true (.char '/')) (.plus true (.char '*'))

/-- The text that is set off from the marks. -/
def offset : Pattern := .group 1 (.seq (.set .indent) (.star true (.set .notNewline)))

def closing : Pattern := .sequence [.optional offset, .look .lineEnd]

theorem runs_closing (t : Thread) :
    closing.runs t = (offset.runs t ++ [t]).flatMap (Pattern.look .lineEnd).runs := rfl

theorem runs_plus_char_eq_nil {c : Char} {t : Thread} (h : t.cursor.rest.head? ≠ some c) :
    (plus true (char c)).runs t = [] := by
  rw [runs_plus, runs_char, if_neg h]
  rfl

theorem runs_marks_eq_nil {t : Thread} (h : ∀ mark ∈ ['/', '*'], t.cursor.rest.head? ≠ some mark) :
    marks.runs t = [] := by
  rw [marks, runs, runs_plus_char_eq_nil (h '/' (by decide)),
    runs_plus_char_eq_nil (h '*' (by decide)), List.append_nil]

theorem runs_closing_eq_nil {t : Thread} {c : Char} (hc : t.cursor.rest.head? = some c)
    (hindent : isIndentChar c = false) (hnewline : c ≠ '\n') : closing.runs t = [] := by
  have hset : (set .indent).runs t.enter = [] := by
    rw [runs, Thread.cursor_enter, hc, Option.any_some]
    exact if_neg (Bool.eq_false_iff.1 hindent)
  have hlook : Look.lineEnd.holds t.cursor = false := by
    rw [Look.holds, hc, Option.all_some, beq_eq_false_iff_ne]
    exact hnewline
  rw [runs_closing, offset, runs, runs, hset, List.flatMap_nil, List.map_nil, List.nil_append,
    List.flatMap_singleton, runs, hlook, if_neg Bool.false_ne_true]

theorem runs_closing_of_not_apart {t : Thread} (hrow : '\n' ∉ t.cursor.rest)
    (h : ¬t.cursor.rest.head?.all isIndentChar = true) : closing.runs t = [] := by
  cases hhead : t.cursor.rest.head? with
  | none =>
    rw [hhead] at h
    exact absurd rfl h
  | some c =>
    rw [hhead, Option.all_some, Bool.not_eq_true] at h
    refine runs_closing_eq_nil hhead h ?_
    rintro rfl
    exact hrow (List.mem_of_mem_head? hhead)

/-- Any more marks are read rather than left. -/
theorem flatMap_runs_marks {mark : Char} (hmark : mark ∈ ['/', '*']) {run rest : Text}
    (hne : run ≠ []) (hrun : ∀ c ∈ run, c = mark) (hrest : rest.head? ≠ some mark) {t : Thread}
    (h : t.cursor.rest = run ++ rest) :
    (marks.runs t).flatMap closing.runs = closing.runs (t.skip run.length) := by
  have hleave (u : Thread) (hu : u.cursor.rest.head?.any (CharSet.char mark).contains = true) :
      closing.runs u = [] := by
    refine runs_closing_eq_nil (any_contains_char.1 hu) (not_isIndentChar_of_mark hmark) ?_
    rintro rfl
    simp at hmark
  have hread : ((plus true (char mark)).runs t).flatMap closing.runs =
      closing.runs (t.skip run.length) :=
    flatMap_runs_plus hleave hne (by simpa [CharSet.contains] using hrun)
      (any_contains_char_eq_false.2 hrest) h
  have hhead : t.cursor.rest.head? = some mark := by
    obtain ⟨c, run, rfl⟩ := List.exists_cons_of_ne_nil hne
    rw [h, hrun c List.mem_cons_self]
    rfl
  rw [marks, runs, List.flatMap_append]
  rcases List.mem_pair.1 hmark with rfl | rfl
  · rw [hread, runs_plus_char_eq_nil (c := '*') (by simp [hhead])]
    exact List.append_nil _
  · rw [hread, runs_plus_char_eq_nil (c := '/') (by simp [hhead])]
    rfl

theorem head?_runs_offset (before : Text) {c : Char} {rest : Text}
    (hblank : CharSet.indent.contains c = true)
    (hrest : ∀ d ∈ rest, CharSet.notNewline.contains d = true) :
    (offset.runs ⟨.between before (c :: rest), [], []⟩).head? =
      some ⟨.between (before ++ c :: rest) [], [⟨1, size before, size (before ++ c :: rest)⟩],
        []⟩ := by
  have hfirst : (set .indent).runs ⟨.between before (c :: rest), [], [size before]⟩ =
      [⟨.between (before ++ [c]) rest, [], [size before]⟩] := by
    rw [runs, Cursor.rest_between, List.head?_cons, Option.any_some, if_pos hblank]
    exact congrArg (fun t => [t]) (Thread.skip_between before [c] rest [] [size before])
  have hmore : ((star true (set .notNewline)).runs
      ⟨.between (before ++ [c]) rest, [], [size before]⟩).head? =
        some ⟨.between (before ++ c :: rest) [], [], [size before]⟩ := by
    have hskip := Thread.skip_between (before ++ [c]) rest [] [] [size before]
    rw [List.append_nil, List.append_assoc, List.singleton_append] at hskip
    rw [head?_runs_star hrest rfl (List.append_nil rest).symm, hskip]
  have henter : (Thread.mk (.between before (c :: rest)) [] []).enter =
      ⟨.between before (c :: rest), [], [size before]⟩ := rfl
  rw [offset, runs, runs, henter, hfirst, List.flatMap_singleton, List.head?_map, hmore]
  rfl

/-- What is captured of a line. Nothing is when there is nothing behind the decoration. -/
def kept (line rest : Text) : List Capture :=
  if rest = [] then [] else [⟨1, size line - size rest, size line⟩]

theorem head?_runs_closing (before : Text) {rest : Text} (hrow : '\n' ∉ rest)
    (happart : rest.head?.all isIndentChar = true) :
    (closing.runs ⟨.between before rest, [], []⟩).head? =
      some ⟨.between (before ++ rest) [], kept (before ++ rest) rest, []⟩ := by
  cases rest with
  | nil =>
    rw [List.append_nil]
    rfl
  | cons c rest =>
    have hrest : ∀ d ∈ rest, CharSet.notNewline.contains d = true := by
      intro d hd
      have hne : d ≠ '\n' := by
        rintro rfl
        exact hrow (List.mem_cons_of_mem _ hd)
      simpa [CharSet.notNewline, CharSet.contains] using hne
    obtain ⟨others, hothers⟩ :=
      List.head?_eq_some_iff.1 (head?_runs_offset before (by exact happart) hrest)
    have hstart : size (before ++ c :: rest) - size (c :: rest) = size before := by
      rw [Text.size_append, Nat.add_sub_cancel]
    rw [runs_closing, hothers, kept, if_neg (List.cons_ne_nil c rest), hstart]
    rfl

def body : Pattern := .sequence [marks, .optional offset, .look .lineEnd]

theorem runs_body (t : Thread) : body.runs t = (marks.runs t).flatMap closing.runs := rfl

theorem runs_body_of_mark {mark : Char} (hmark : mark ∈ ['/', '*']) (blanks t : Text) :
    body.runs ⟨.between blanks (mark :: t), [], []⟩ =
      closing.runs ⟨.between (blanks ++ mark :: t.takeWhile (· == mark))
        (t.dropWhile (· == mark)), [], []⟩ := by
  have hrest : (t.dropWhile (· == mark)).head? ≠ some mark := by
    intro hhead
    obtain ⟨u, hu⟩ := List.head?_eq_some_iff.1 hhead
    have hne := List.head_dropWhile_not (· == mark) (l := t) (by simp [hu])
    simp [hu] at hne
  have hsplit : mark :: t = mark :: t.takeWhile (· == mark) ++ t.dropWhile (· == mark) := by
    rw [List.cons_append, List.takeWhile_append_dropWhile]
  have hskip := Thread.skip_between blanks (mark :: t.takeWhile (· == mark))
    (t.dropWhile (· == mark)) [] []
  rw [← hsplit] at hskip
  rw [runs_body, flatMap_runs_marks hmark (List.cons_ne_nil _ _) (eq_of_mem_run mark t) hrest
    hsplit, hskip]

theorem head?_runs_body (blanks : Text) {tail : Text} (hrow : '\n' ∉ tail) :
    (body.runs ⟨.between blanks tail, [], []⟩).head? = (behind? tail).map fun rest =>
      ⟨.between (blanks ++ tail) [], kept (blanks ++ tail) rest, []⟩ := by
  cases tail with
  | nil =>
    rw [runs_body, runs_marks_eq_nil (by simp)]
    rfl
  | cons mark t =>
    rw [behind?]
    by_cases hmark : mark ∈ ['/', '*']
    · have hrest : '\n' ∉ t.dropWhile (· == mark) := fun hmem =>
        hrow (List.mem_cons_of_mem _ ((List.dropWhile_sublist _).subset hmem))
      have hsplit : blanks ++ mark :: t.takeWhile (· == mark) ++ t.dropWhile (· == mark) =
          blanks ++ mark :: t := by
        rw [List.append_assoc, List.cons_append, List.takeWhile_append_dropWhile]
      rw [runs_body_of_mark hmark]
      split
      · rename_i happart
        rw [head?_runs_closing _ hrest happart.2, hsplit]
        rfl
      · rename_i happart
        have hclosing := runs_closing_of_not_apart
          (t := ⟨.between (blanks ++ mark :: t.takeWhile (· == mark)) (t.dropWhile (· == mark)), [],
            []⟩) hrest fun h => happart ⟨hmark, h⟩
        rw [hclosing]
        rfl
    · have hhead (other : Char) (hother : other ∈ ['/', '*']) : (mark :: t).head? ≠ some other := by
        rintro ⟨⟩
        exact hmark hother
      rw [if_neg fun h => hmark h.1, runs_body, runs_marks_eq_nil hhead]
      rfl

/-- The match of a decorated line is all of it. -/
theorem matchHere_pattern {row : Text} (hrow : '\n' ∉ row) :
    regex.pattern.matchHere (.origin row) =
      (rest? row).map fun rest => ⟨0, size row, kept row rest⟩ := by
  have hpattern : regex.pattern = .seq (look .lineStart) (.seq indent body) := rfl
  have hnone (u : Thread) (hu : u.cursor.rest.head?.any CharSet.indent.contains = true) :
      body.runs u = [] := by
    rw [runs_body, runs_marks_eq_nil]
    · rfl
    · rintro mark hmark hhead
      rw [hhead] at hu
      exact absurd hu (Bool.eq_false_iff.1 (not_isIndentChar_of_mark hmark))
  obtain ⟨blanks, tail, rfl, hblanks, htail⟩ := Text.exists_leading Text.isIndentChar row
  obtain ⟨_, hdrop⟩ := Text.takeWhile_leading hblanks htail
  have hruns : regex.pattern.runs (.start (.origin (blanks ++ tail))) =
      body.runs ⟨.between blanks tail, [], []⟩ := by
    have hskip := Thread.skip_between [] blanks tail [] []
    have hlook : (look .lineStart).runs (.start (.origin (blanks ++ tail))) =
        [⟨.between [] (blanks ++ tail), [], []⟩] := rfl
    rw [hpattern, runs, hlook, List.flatMap_singleton, runs, indent,
      flatMap_runs_star hnone hblanks htail rfl, hskip, List.nil_append]
  have hrow : '\n' ∉ tail := fun hmem => hrow (List.mem_append_right _ hmem)
  rw [matchHere, hruns, rest?, hdrop, head?_runs_body blanks hrow, Option.map_map]
  rfl

end Runs

/-! ## Stripping -/

theorem lineBound_pattern : regex.pattern.LineBound := by decide

theorem findAt_row {row : Text} (hrow : '\n' ∉ row) :
    regex.findAt row 0 = (rest? row).map fun rest => ⟨0, size row, kept row rest⟩ := by
  rw [Regex.findAt_row lineBound_pattern hrow, matchHere_pattern hrow]

theorem expand_kept (docs : Text) (m : Match) :
    regex.expand docs m "$\x7b1\x7d" = (m.group? docs 1).getD [] := by
  have hexpand : regex.expand docs m "$\x7b1\x7d" = regex.resolve docs m "1" ++ [] := rfl
  rw [hexpand, List.append_nil]
  rfl

theorem group?_kept {line rest : Text} (h : Decorated line rest) :
    ((Match.mk 0 (size line) (kept line rest)).group? line 1).getD [] = rest := by
  cases h with
  | @intro blanks run rest mark =>
    rw [kept]
    split
    · rename_i hnil
      rw [hnil]
      rfl
    · have hslice := Text.slice_size_append (blanks ++ run) rest []
      have hstart : size (blanks ++ (run ++ rest)) - size rest = size (blanks ++ run) := by
        rw [← List.append_assoc, Text.size_append, Nat.add_sub_cancel]
      rw [List.append_nil, ← Text.size_append, List.append_assoc] at hslice
      rw [hstart]
      exact hslice

theorem replaces_bare (docs : Text) :
    regex.Replaces docs (fun m => regex.expand docs m "$\x7b1\x7d") fun row _ => bare row := by
  rintro before row after m rfl hrow hm
  simp only [expand_kept, Regex.group?_moved hm]
  rw [findAt_row hrow] at hm
  obtain ⟨rest, hrest, rfl⟩ := Option.map_eq_some_iff.1 hm
  rw [group?_kept (rest?_eq_some_iff.1 hrest), bare, hrest, Option.getD_some]

theorem replaceLine_append {row ending : Text} (hrow : '\n' ∉ row)
    (hbare : Text.bareLine (row ++ ending) = row) :
    regex.replaceLine (fun row _ => bare row) (row ++ ending) = bare row ++ ending := by
  rw [Regex.replaceLine, hbare, findAt_row hrow, bare]
  cases rest? row with
  | none => rfl
  | some rest =>
    rw [Option.map_some, Option.getD_some]
    simp only [Text.after_size_append]

theorem linewise_bare : Text.Linewise bare (regex.replaceLine fun row _ => bare row) := by
  refine ⟨fun r hr => ?_, fun r hr => ?_, fun r hr => ?_, rfl⟩
  · have hbare : Text.bareLine (r ++ []) = r := by rw [List.append_nil, Text.bareLine_row hr]
    have hline := replaceLine_append hr hbare
    rwa [List.append_nil, List.append_nil] at hline
  · exact replaceLine_append hr (Text.bareLine_newline r)
  · obtain ⟨taken, htaken⟩ := exists_bare r
    rw [htaken] at hr
    exact fun hmem => hr (List.mem_append_right _ hmem)

theorem strip_eq_flatMap (docs : Text) :
    strip docs = (Text.lines docs).flatMap (regex.replaceLine fun row _ => bare row) :=
  Regex.replaceAll_eq_flatMap lineBound_pattern (replaces_bare docs)

theorem splitOn_strip (docs : Text) :
    (strip docs).splitOn '\n' = (docs.splitOn '\n').map bare := by
  rw [strip_eq_flatMap, Text.splitOn_flatMap_lines linewise_bare]

/-- Stripping is a function of the lines: what it makes of a line is the text behind the decoration,
or the line when there is none, and the lines stay as many and in order. -/
theorem strip_linewise (docs : Text) :
    strip docs = ['\n'].intercalate ((docs.splitOn '\n').map bare) ∧
    (strip docs).splitOn '\n' = (docs.splitOn '\n').map bare ∧
    ((strip docs).splitOn '\n').length = (docs.splitOn '\n').length ∧
    ∀ line, (∀ rest, Decorated line rest → bare line = rest) ∧
      ((∀ rest, ¬Decorated line rest) → bare line = line) := by
  have hsplit := splitOn_strip docs
  refine ⟨?_, hsplit, ?_, fun line => ⟨fun rest => bare_of_decorated, bare_of_not_decorated⟩⟩
  · rw [← hsplit, List.intercalate_splitOn]
  · rw [hsplit, List.length_map]

end Marginalia.Decoration
