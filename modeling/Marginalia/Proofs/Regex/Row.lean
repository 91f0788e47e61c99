import Marginalia.Proofs.Regex.Break
import Marginalia.Proofs.Text.Located
import Mathlib.Data.List.Basic

/-! # Patterns that stay within a line

A pattern that reads no newline and does not ask where the text starts or ends makes the same of a
line whether it stands alone or amid other lines (`runs_amid`). If it is also bound to the start of a
line, a search tries the lines one after the other (`findAt_eq_findSome?`).
-/

namespace Marginalia

open Text (EndsLine isBlank rowsFrom size)

namespace Cursor

/-- The same place of a text that stands between two others. -/
def amid (before after : Text) (c : Cursor) : Cursor :=
  ⟨size before + c.pos, c.prev.or before.getLast?, c.rest ++ after⟩

theorem next_amid (before after : Text) {c : Cursor} (h : c.rest ≠ []) :
    (c.amid before after).next = c.next.amid before after := by
  obtain ⟨d, rest, hrest⟩ := List.exists_cons_of_ne_nil h
  simp [amid, next, hrest, Nat.add_assoc]

end Cursor

def Capture.moved (offset : Nat) (c : Capture) : Capture :=
  ⟨c.group, offset + c.start, offset + c.stop⟩

namespace Thread

def amid (before after : Text) (t : Thread) : Thread :=
  ⟨t.cursor.amid before after, t.captures.map (.moved (size before)),
    t.entered.map (size before + ·)⟩

theorem leave_amid (before after : Text) (t : Thread) (group : Nat) :
    (t.amid before after).leave group = (t.leave group).amid before after := by
  obtain ⟨c, captures, entered⟩ := t
  cases entered <;> rfl

theorem advance_amid (before after : Text) {t : Thread} (h : t.cursor.rest ≠ []) :
    (t.amid before after).advance = t.advance.amid before after := by
  have hnext := Cursor.next_amid before after h
  rw [advance, advance, amid, amid, hnext]

end Thread

/-- Whether the assertion asks only for the characters next to a place, and takes the end of the
text for a newline. -/
def Look.seesLine : Look → Bool
  | textStart => false
  | textEnd => false
  | _ => true

namespace Pattern

/-- Whether the pattern reads no newline and sees nothing beyond one. -/
def withinLine : Pattern → Bool
  | empty => true
  | set s => !s.contains '\n'
  | look l => l.seesLine
  | seq p q => p.withinLine && q.withinLine
  | alt p q => p.withinLine && q.withinLine
  | group _ p => p.withinLine
  | star _ p => p.withinLine
  | plus _ p => p.withinLine

section Amid

theorem prev_amid {before : Text} (hbefore : EndsLine before) (after : Text) {α : Type}
    (f : Option Char → α) (hf : f (some '\n') = f none) (c : Cursor) :
    f (c.amid before after).prev = f c.prev := by
  rw [Cursor.amid]
  cases c.prev with
  | some d => rfl
  | none =>
    cases hlast : before.getLast? with
    | none => rfl
    | some d =>
      obtain rfl := hbefore d hlast
      exact hf

theorem head?_amid (before : Text) {after : Text} (hafter : ∀ c ∈ after.head?, c = '\n') {α : Type}
    (f : Option Char → α) (hf : f (some '\n') = f none) (c : Cursor) :
    f (c.amid before after).rest.head? = f c.rest.head? := by
  rw [Cursor.amid]
  cases c.rest with
  | cons d rest => rfl
  | nil =>
    cases hhead : after.head? with
    | none => exact congrArg f hhead
    | some d =>
      obtain rfl := hafter d hhead
      exact (congrArg f hhead).trans hf

variable {before after : Text} (hbefore : EndsLine before) (hafter : ∀ c ∈ after.head?, c = '\n')

include hbefore hafter in
/-- A newline and the end of a text look alike, since neither is part of a word. -/
theorem holds_amid {l : Look} (hl : l.seesLine = true) (c : Cursor) :
    l.holds (c.amid before after) = l.holds c := by
  have hwordBefore := prev_amid hbefore after (Option.any Text.isWordChar) rfl c
  have hwordAfter := head?_amid before hafter (Option.any Text.isWordChar) rfl c
  have hstart := prev_amid hbefore after (Option.all (· == '\n')) rfl c
  have hend := head?_amid before hafter (Option.all (· == '\n')) rfl c
  cases l with
  | textStart => cases hl
  | textEnd => cases hl
  | _ => simp only [Look.holds, hwordBefore, hwordAfter, hstart, hend]

include hafter in
theorem runs_set_amid {s : CharSet} (hs : s.contains '\n' = false) (t : Thread) :
    (set s).runs (t.amid before after) = ((set s).runs t).map (.amid before after) := by
  have hread : (t.amid before after).cursor.rest.head?.any s.contains =
      t.cursor.rest.head?.any s.contains :=
    head?_amid before hafter (Option.any s.contains) hs t.cursor
  rw [runs, runs, hread]
  split
  · rename_i hany
    have hne : t.cursor.rest ≠ [] := by
      intro hnil
      rw [hnil] at hany
      cases hany
    rw [Thread.advance_amid before after hne]
    rfl
  · rfl

theorem runs_star_amid {greedy : Bool} {p : Pattern} (hread : p.nullable = false) {t : Thread}
    (hplus : (plus greedy p).runs (t.amid before after) =
      ((plus greedy p).runs t).map (.amid before after)) :
    (star greedy p).runs (t.amid before after) =
      ((star greedy p).runs t).map (.amid before after) := by
  rw [runs_star hread, runs_star hread, hplus]
  cases greedy <;> simp

theorem runs_plus_amid {greedy : Bool} {p : Pattern} (hread : p.nullable = false)
    (hp : ∀ t : Thread, p.runs (t.amid before after) = (p.runs t).map (.amid before after))
    (t : Thread) :
    (plus greedy p).runs (t.amid before after) =
      ((plus greedy p).runs t).map (.amid before after) := by
  generalize hlength : t.cursor.rest.length = length
  induction length using Nat.strongRecOn generalizing t with
  | ind length ih =>
    subst hlength
    rw [runs_plus, runs_plus, hp, List.flatMap_map, List.map_flatMap]
    refine List.flatMap_congr fun u hu => runs_star_amid hread ?_
    exact ih _ (length_lt_of_mem_runs hread hu) u rfl

include hbefore hafter in
theorem runs_amid {p : Pattern} (hp : p.withinLine = true) (hloops : p.loopsRead = true)
    (t : Thread) : p.runs (t.amid before after) = (p.runs t).map (.amid before after) := by
  induction p generalizing t with
  | empty => rfl
  | set s => exact runs_set_amid hafter (by simpa [withinLine] using hp) t
  | look l =>
    have hlook : l.holds (t.amid before after).cursor = l.holds t.cursor :=
      holds_amid hbefore hafter hp t.cursor
    rw [runs, runs, hlook]
    split <;> rfl
  | seq p q ihp ihq =>
    obtain ⟨hp, hq⟩ := Bool.and_eq_true_iff.1 hp
    obtain ⟨hloopsp, hloopsq⟩ := Bool.and_eq_true_iff.1 hloops
    rw [runs, runs, ihp hp hloopsp, List.flatMap_map, List.map_flatMap]
    simp only [ihq hq hloopsq]
  | alt p q ihp ihq =>
    obtain ⟨hp, hq⟩ := Bool.and_eq_true_iff.1 hp
    obtain ⟨hloopsp, hloopsq⟩ := Bool.and_eq_true_iff.1 hloops
    rw [runs, runs, ihp hp hloopsp, ihq hq hloopsq, List.map_append]
  | group n p ih =>
    have henter : (t.amid before after).enter = t.enter.amid before after := rfl
    rw [runs, runs, henter, ih hp hloops, List.map_map, List.map_map]
    exact List.map_congr_left fun u _ => u.leave_amid before after n
  | star greedy p ih =>
    obtain ⟨hloops, hread⟩ := Bool.and_eq_true_iff.1 hloops
    have hread : p.nullable = false := by simpa using hread
    exact runs_star_amid hread (runs_plus_amid hread (ih hp hloops) t)
  | plus greedy p ih =>
    obtain ⟨hloops, hread⟩ := Bool.and_eq_true_iff.1 hloops
    have hread : p.nullable = false := by simpa using hread
    exact runs_plus_amid hread (ih hp hloops) t

end Amid

/-- Whether every run reads a certain character that is not blank. -/
def inked : Pattern → Bool
  | set (.char c) => !Text.isBlankChar c
  | seq p q => p.inked || q.inked
  | alt p q => p.inked && q.inked
  | group _ p => p.inked
  | plus _ p => p.inked
  | _ => false

theorem not_isBlank_of_mem_runs {p : Pattern} {t u : Thread} (hp : p.inked = true)
    (h : u ∈ p.runs t) : isBlank t.cursor.rest = false := by
  induction p generalizing t u with
  | set s =>
    cases s with
    | char c =>
      rw [runs] at h
      split at h
      · rename_i hread
        cases hrest : t.cursor.rest with
        | nil =>
          rw [hrest] at hread
          cases hread
        | cons d rest =>
          rw [hrest] at hread
          have hd : d = c := eq_of_beq hread
          rw [inked, ← hd, Bool.not_eq_true'] at hp
          rw [isBlank, List.all_cons, hp, Bool.false_and]
      · cases h
    | _ => cases hp
  | seq p q ihp ihq =>
    obtain ⟨v, hv, hu⟩ := List.mem_flatMap.1 h
    rcases Bool.or_eq_true_iff.1 hp with hp | hq
    · exact ihp hp hv
    · obtain ⟨taken, hrest, _⟩ := reaches_of_mem_runs hv
      rw [hrest, Text.isBlank_append, ihq hq hu, Bool.and_false]
  | alt p q ihp ihq =>
    obtain ⟨hp, hq⟩ := Bool.and_eq_true_iff.1 hp
    rcases List.mem_append.1 h with h | h
    · exact ihp hp h
    · exact ihq hq h
  | group n p ih =>
    obtain ⟨v, hv, _⟩ := List.mem_map.1 h
    rw [← t.cursor_enter]
    exact ih hp hv
  | plus greedy p ih =>
    obtain ⟨v, hv, _⟩ := List.mem_flatMap.1 h
    exact ih hp hv
  | _ => cases hp

theorem lineStart_of_mem_runs {p : Pattern} {t u : Thread} (hp : p.startsLine = true)
    (h : u ∈ p.runs t) : Look.lineStart.holds t.cursor = true := by
  induction p generalizing u with
  | look l =>
    obtain rfl : l = .lineStart := by simpa [startsLine] using hp
    rw [runs] at h
    split at h
    · assumption
    · cases h
  | seq p q ih _ =>
    obtain ⟨v, hv, _⟩ := List.mem_flatMap.1 h
    exact ih hp hv
  | _ => cases hp

/-- Patterns that match lines, each for itself and from its start, but no blank ones. -/
@[mk_iff]
structure LineBound (p : Pattern) : Prop where
  loopsRead : p.loopsRead = true
  startsLine : p.startsLine = true
  withinLine : p.withinLine = true
  inked : p.inked = true

instance (p : Pattern) : Decidable p.LineBound := decidable_of_iff' _ (lineBound_iff p)

end Pattern

def Match.moved (offset : Nat) (m : Match) : Match :=
  ⟨offset + m.start, offset + m.stop, m.captures.map (.moved offset)⟩

theorem Match.moved_zero : Match.moved 0 = fun m => m := by
  have hcapture : Capture.moved 0 = id := by
    funext c
    simp only [Capture.moved, Nat.zero_add, id]
  funext m
  rw [moved, hcapture, List.map_id, Nat.zero_add, Nat.zero_add]

namespace Pattern.LineBound

variable {p : Pattern} (h : p.LineBound)

include h

theorem matchHere_of_isBlank {c : Cursor} (hc : isBlank c.rest = true) : p.matchHere c = none := by
  have hnil : p.runs (.start c) = [] := by
    refine List.eq_nil_iff_forall_not_mem.2 fun u hu => ?_
    have hink := not_isBlank_of_mem_runs h.inked hu
    cases hc.symm.trans hink
  rw [matchHere, hnil]
  rfl

theorem matchHere_of_inside {a u : Text} (ha : ¬EndsLine a) :
    p.matchHere ⟨size a, a.getLast?, u⟩ = none := by
  have hnil : p.runs (.start ⟨size a, a.getLast?, u⟩) = [] := by
    refine List.eq_nil_iff_forall_not_mem.2 fun v hv => ha ?_
    have hlook := lineStart_of_mem_runs h.startsLine hv
    intro c hc
    rw [Look.holds, Thread.start, Option.mem_def.1 hc] at hlook
    exact eq_of_beq hlook
  rw [matchHere, hnil]
  rfl

theorem matchHere_amid {before row after : Text} (hbefore : EndsLine before)
    (hafter : ∀ c ∈ after.head?, c = '\n') :
    p.matchHere ⟨size before, before.getLast?, row ++ after⟩ =
      (p.matchHere (.origin row)).map (.moved (size before)) := by
  have hruns := runs_amid hbefore hafter h.withinLine h.loopsRead (.start (.origin row))
  have hstart : (Thread.start (.origin row)).amid before after =
      .start ⟨size before, before.getLast?, row ++ after⟩ := rfl
  rw [hstart] at hruns
  rw [matchHere, hruns, List.head?_map, Option.map_map, matchHere, Option.map_map]
  rfl

theorem leftmost_eq (a u : Text) :
    p.leftmost (size a) a.getLast? u =
      (rowsFrom (size a) (a ++ u)).findSome? fun r =>
        (p.matchHere (.origin r.2)).map (.moved r.1) := by
  induction u generalizing a with
  | nil =>
    rw [leftmost, h.matchHere_of_isBlank rfl, List.append_nil, Text.rowsFrom_eq_nil (Nat.le_refl _)]
    rfl
  | cons c u ih =>
    have hnext := ih (a ++ [c])
    rw [Text.size_append, List.getLast?_concat, List.append_assoc] at hnext
    have hnext : p.leftmost (size a + c.utf8Size) (some c) u =
        (rowsFrom (size a + c.utf8Size) (a ++ c :: u)).findSome? fun r =>
          (p.matchHere (.origin r.2)).map (.moved r.1) := hnext
    rw [leftmost, hnext]
    by_cases ha : EndsLine a
    · obtain ⟨row, rest, hsplit, _, hrest, hrows⟩ := Text.exists_rowsFrom_cons ha c u
      rw [hrows, List.findSome?_cons, hsplit, h.matchHere_amid ha hrest]
      cases p.matchHere (.origin row) <;> rfl
    · rw [h.matchHere_of_inside ha, Option.none_or, Text.rowsFrom_of_not_endsLine ha]

end Pattern.LineBound

theorem Cursor.pos_skip_le {bytes : Nat} (pos : Nat) (prev : Option Char) {s : Text} (t : Text)
    (h : bytes ≤ size s) : (skip bytes pos prev (s ++ t)).pos ≤ pos + size s := by
  induction s generalizing bytes pos prev with
  | nil =>
    obtain rfl : bytes = 0 := Nat.le_zero.1 h
    cases t <;> exact Nat.le_refl _
  | cons c s ih =>
    rw [Text.size_cons] at h
    rw [List.cons_append, skip, Text.size_cons]
    split
    · exact Nat.le_add_right _ _
    · have hle : bytes - c.utf8Size ≤ size s := by omega
      have hnext := ih (pos + c.utf8Size) (some c) hle
      omega

namespace Regex

variable {re : Regex} (h : re.pattern.LineBound)

include h

theorem findAt_eq_findSome? {t : Text} {offset : Nat} (hoffset : offset ≤ size t) :
    re.findAt t offset = (rowsFrom offset t).findSome? fun r =>
      (re.pattern.matchHere (.origin r.2)).map (.moved r.1) := by
  obtain ⟨taken, htext, hpos, hprev⟩ := Cursor.reaches_ofOffset t offset
  have htext : t = taken ++ (Cursor.ofOffset t offset).rest := htext
  have hpos : (Cursor.ofOffset t offset).pos = size taken := by simpa [Cursor.origin] using hpos
  have hprev : (Cursor.ofOffset t offset).prev = taken.getLast? := by
    simpa [Cursor.origin] using hprev
  have hle : offset ≤ size taken := by
    have hskip := Cursor.le_pos_skip 0 none hoffset
    rw [← hpos, Cursor.ofOffset]
    omega
  have hrows : rowsFrom offset t = rowsFrom (size taken) t := by
    apply Text.rowsFrom_congr hle
    rintro _ ⟨a, b, ht, rfl, _⟩ hnext
    have hskip := Cursor.pos_skip_le 0 none b hnext
    rw [← ht, ← Cursor.ofOffset, hpos, Nat.zero_add] at hskip
    exact hskip
  rw [findAt, findFrom_eq_leftmost h.loopsRead, hpos, hprev, h.leftmost_eq, ← htext, hrows]

/-- A single line is matched from its start or not at all. -/
theorem findAt_row {row : Text} (hrow : '\n' ∉ row) :
    re.findAt row 0 = re.pattern.matchHere (.origin row) := by
  rw [findAt_eq_findSome? h (Nat.zero_le _)]
  by_cases hne : row = []
  · rw [hne, h.matchHere_of_isBlank rfl]
    rfl
  · have hrows : rowsFrom 0 row = Text.located 0 (Text.lines row) :=
      Text.rowsFrom_size_append Text.endsLine_nil row
    rw [hrows, Text.lines_row hrow hne, Text.located, Text.located, Text.bareLine_row hrow,
      List.findSome?_singleton, Match.moved_zero, Option.map_id']

omit h in
theorem range?_moved (offset : Nat) (m : Match) (n : Nat) :
    (m.moved offset).range? n = (m.range? n).map fun r => (offset + r.1, offset + r.2) := by
  rw [Match.range?, Match.range?]
  split
  · rfl
  · rw [Match.moved, List.find?_map, Option.map_map, Option.map_map]
    rfl

omit h in
theorem group?_moved {row : Text} {m : Match} (hm : re.findAt row 0 = some m) (before after : Text)
    (n : Nat) : (m.moved (size before)).group? (before ++ (row ++ after)) n = m.group? row n := by
  rw [Match.group?, Match.group?, range?_moved]
  cases hr : m.range? n with
  | none => rfl
  | some r =>
    obtain ⟨_, hle, _, hstart, hstop⟩ := bounds_of_range? hm hr
    exact congrArg some (Text.slice_amid hstart hstop hle before after)

omit h in
theorem text_moved {row : Text} {m : Match} (hm : re.findAt row 0 = some m) (before after : Text) :
    (m.moved (size before)).text (before ++ (row ++ after)) = m.text row :=
  Text.slice_amid (boundary_start_of_findAt hm) (boundary_stop_of_findAt hm)
    (start_le_stop_of_findAt hm) before after

end Regex

end Marginalia
