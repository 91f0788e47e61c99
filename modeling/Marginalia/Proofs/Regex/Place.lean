import Marginalia.Proofs.Text.Cut
import Marginalia.Regex.Leftmost

/-! # Where matches lie

A match starts and stops at boundaries of the text, not before the place where the search starts. A
pattern that begins with the assertion of a line start matches at line starts only, one that ends
with the assertion of a line end only up to line ends.
-/

namespace Marginalia

open Pattern (Reaches)

namespace Cursor

def origin (t : Text) : Cursor := ⟨0, none, t⟩

theorem reaches_skip (bytes pos : Nat) (prev : Option Char) (t : Text) :
    Reaches ⟨pos, prev, t⟩ (skip bytes pos prev t) := by
  induction t generalizing bytes pos prev with
  | nil => exact .refl _
  | cons c rest ih =>
    rw [skip]
    split
    · exact .refl _
    · exact (Reaches.next ⟨pos, prev, c :: rest⟩).trans (ih _ _ _)

theorem le_pos_skip {bytes : Nat} (pos : Nat) (prev : Option Char) {t : Text}
    (h : bytes ≤ Text.size t) : pos + bytes ≤ (skip bytes pos prev t).pos := by
  induction t generalizing bytes pos prev with
  | nil =>
    rw [Text.size_nil] at h
    simp only [skip]
    omega
  | cons c rest ih =>
    rw [Text.size_cons] at h
    rw [skip]
    split
    · simp only
      omega
    · have hnext : pos + c.utf8Size + (bytes - c.utf8Size) ≤
          (skip (bytes - c.utf8Size) (pos + c.utf8Size) (some c) rest).pos := ih _ _ (by omega)
      omega

theorem reaches_ofOffset (t : Text) (offset : Nat) : Reaches (origin t) (ofOffset t offset) :=
  reaches_skip offset 0 none t

theorem exists_ofOffset_append (s t : Text) :
    ∃ prev, ofOffset (s ++ t) (Text.size s) = ⟨Text.size s, prev, t⟩ := by
  suffices h : ∀ (pos : Nat) (prev : Option Char),
      ∃ prev', skip (Text.size s) pos prev (s ++ t) = ⟨pos + Text.size s, prev', t⟩ by
    simpa [ofOffset] using h 0 none
  induction s with
  | nil =>
    intro pos prev
    exact ⟨prev, by cases t <;> rfl⟩
  | cons c s ih =>
    intro pos prev
    have hpos := Char.utf8Size_pos c
    obtain ⟨prev', hskip⟩ := ih (pos + c.utf8Size) (some c)
    refine ⟨prev', ?_⟩
    rw [List.cons_append, skip, Text.size_cons, if_neg (by omega), Nat.add_sub_cancel_left, hskip,
      Nat.add_assoc]

theorem ofOffset_append (s t : Text) :
    ofOffset (s ++ t) (Text.size s) = ⟨Text.size s, s.getLast?, t⟩ := by
  obtain ⟨prev, hoffset⟩ := exists_ofOffset_append s t
  obtain ⟨taken, htext, hpos, hprev⟩ := reaches_ofOffset (s ++ t) (Text.size s)
  rw [hoffset] at htext hpos hprev ⊢
  have hsize : Text.size s = Text.size taken := by simpa [origin] using hpos
  obtain ⟨rfl, _⟩ := Text.append_inj_of_size (show s ++ t = taken ++ t from htext) hsize
  have hprev : prev = s.getLast? := by simpa [origin] using hprev
  rw [hprev]

theorem boundary_of_reaches {t : Text} {c : Cursor} (h : Reaches (origin t) c) :
    Text.Boundary t c.pos := by
  obtain ⟨taken, hrest, hpos, _⟩ := h
  exact ⟨taken, c.rest, hrest, by simpa [origin] using hpos.symm⟩

theorem lineStart_of_reaches {t : Text} {c : Cursor} (h : Reaches (origin t) c)
    (hlook : Look.lineStart.holds c = true) : Text.LineStart t c.pos := by
  obtain ⟨taken, hrest, hpos, hprev⟩ := h
  refine ⟨taken, c.rest, hrest, by simpa [origin] using hpos.symm, ?_⟩
  intro d hd
  rw [Look.holds, hprev, Option.mem_def.1 hd] at hlook
  simpa using hlook

end Cursor

namespace Pattern

/-- Whether the pattern begins with the assertion of a line start. -/
def startsLine : Pattern → Bool
  | look l => l == .lineStart
  | seq p _ => p.startsLine
  | _ => false

theorem holds_of_explore {p : Pattern} {prog : Program} {i next fuel : Nat} {seen : Visited}
    {t u : Thread} (hp : p.startsLine = true) (hdoes : prog.Does p i next)
    (h : (prog.explore fuel seen i t).1 = some u) : Look.lineStart.holds t.cursor = true := by
  induction p generalizing next with
  | look l =>
    obtain rfl : l = .lineStart := by simpa [startsLine] using hp
    cases fuel with
    | zero => cases h
    | succ fuel =>
      rw [Program.explore, Program.act_of_getElem? hdoes t, Step.act] at h
      cases hlook : Look.lineStart.holds t.cursor with
      | true => rfl
      | false => simp [hlook] at h
  | seq p q hp' _ =>
    obtain ⟨middle, hdoes, _⟩ := hdoes
    exact hp' hp hdoes
  | _ => cases hp

theorem holds_of_run {p : Pattern} {seen : Visited} {c : Cursor} {u : Thread}
    (hp : p.startsLine = true) (h : (p.machine.run seen c).1 = some u) :
    Look.lineStart.holds c = true :=
  holds_of_explore hp (Program.does_build p 0 #[.accept]) h

/-- Whether the pattern ends with the assertion of a line end. -/
def endsLine : Pattern → Bool
  | look l => l == .lineEnd
  | seq _ q => q.endsLine
  | _ => false

theorem holds_of_mem_runs {p : Pattern} {t u : Thread} (hp : p.endsLine = true)
    (h : u ∈ p.runs t) : Look.lineEnd.holds u.cursor = true := by
  induction p generalizing t with
  | look l =>
    obtain rfl : l = .lineEnd := by simpa [endsLine] using hp
    rw [runs] at h
    split at h
    · obtain rfl := List.mem_singleton.1 h
      assumption
    · cases h
  | seq p q _ hq =>
    obtain ⟨v, _, hu⟩ := List.mem_flatMap.1 h
    exact hq hp hu
  | _ => cases hp

theorem exists_of_leftmost {p : Pattern} {pos : Nat} {prev : Option Char} {t : Text} {m : Match}
    (h : p.leftmost pos prev t = some m) :
    ∃ (c : Cursor) (u : Thread), Reaches ⟨pos, prev, t⟩ c ∧ u ∈ p.runs (.start c) ∧
      m = .ofThread c.pos u := by
  have hhere {c : Cursor} (hc : p.matchHere c = some m) :
      ∃ u ∈ p.runs (.start c), m = .ofThread c.pos u := by
    obtain ⟨u, hu, rfl⟩ := Option.map_eq_some_iff.1 hc
    exact ⟨u, List.mem_of_mem_head? hu, rfl⟩
  induction t generalizing pos prev with
  | nil =>
    obtain ⟨u, hu, hm⟩ := hhere h
    exact ⟨_, u, .refl _, hu, hm⟩
  | cons d rest ih =>
    rw [leftmost, Option.or_eq_some_iff] at h
    rcases h with h | ⟨_, h⟩
    · obtain ⟨u, hu, hm⟩ := hhere h
      exact ⟨_, u, .refl _, hu, hm⟩
    · obtain ⟨c, u, hc, hu, hm⟩ := ih h
      exact ⟨c, u, (reaches_tail pos prev d rest).trans hc, hu, hm⟩

end Pattern

namespace Regex

/-- A search finds a run from some place at or after the one where it starts. -/
theorem exists_of_search {machine : Machine} {seen : Visited} {pos : Nat} {prev : Option Char}
    {t : Text} {m : Match} (h : search machine seen pos prev t = some m) :
    ∃ (c : Cursor) (seen' : Visited) (u : Thread), Reaches ⟨pos, prev, t⟩ c ∧
      (machine.run seen' c).1 = some u ∧ m = .ofThread c.pos u := by
  induction t generalizing seen pos prev with
  | nil =>
    obtain ⟨u, hu, rfl⟩ := Option.map_eq_some_iff.1 h
    exact ⟨_, seen, u, .refl _, hu, rfl⟩
  | cons c rest ih =>
    rw [search] at h
    split at h
    · rename_i u _ hrun
      obtain rfl := Option.some.inj h
      exact ⟨_, seen, u, .refl _, congrArg Prod.fst hrun, rfl⟩
    · obtain ⟨d, seen', u, hd, hu, hm⟩ := ih h
      exact ⟨d, seen', u, (Reaches.next ⟨pos, prev, c :: rest⟩).trans hd, hu, hm⟩

theorem exists_of_findAt {re : Regex} {t : Text} {offset : Nat} {m : Match}
    (h : re.findAt t offset = some m) :
    ∃ (c : Cursor) (seen : Visited) (u : Thread), Reaches (.ofOffset t offset) c ∧
      Reaches (.origin t) c ∧ (re.pattern.machine.run seen c).1 = some u ∧
        m = .ofThread c.pos u := by
  obtain ⟨c, seen, u, hc, hu, hm⟩ := exists_of_search h
  exact ⟨c, seen, u, hc, (Cursor.reaches_ofOffset t offset).trans hc, hu, hm⟩

theorem nextMatch_of_findAt {re : Regex} {t : Text} {offset : Nat} {m : Match}
    (h : re.findAt t offset = some m) (hlt : m.start < m.stop) (last : Option Nat) :
    re.nextMatch t offset last = some m := by
  have hne : m.isEmpty = false := by
    rw [Match.isEmpty, beq_eq_false_iff_ne]
    omega
  rw [nextMatch, h]
  simp only [hne, Bool.false_and, Bool.false_eq_true, if_false]

theorem start_le_stop_of_findAt {re : Regex} {t : Text} {offset : Nat} {m : Match}
    (h : re.findAt t offset = some m) : m.start ≤ m.stop :=
  (search_bounds h).2.1

theorem le_start_of_findAt {re : Regex} {t : Text} {offset : Nat} {m : Match}
    (h : re.findAt t offset = some m) (hle : offset ≤ Text.size t) : offset ≤ m.start := by
  have hstart := (search_bounds h).1
  have hskip := Cursor.le_pos_skip 0 none hle
  rw [Cursor.ofOffset] at hstart
  omega

theorem boundary_start_of_findAt {re : Regex} {t : Text} {offset : Nat} {m : Match}
    (h : re.findAt t offset = some m) : Text.Boundary t m.start := by
  obtain ⟨c, _, u, _, hc, _, rfl⟩ := exists_of_findAt h
  exact Cursor.boundary_of_reaches hc

theorem boundary_stop_of_findAt {re : Regex} {t : Text} {offset : Nat} {m : Match}
    (h : re.findAt t offset = some m) : Text.Boundary t m.stop := by
  obtain ⟨c, _, u, _, hc, hu, rfl⟩ := exists_of_findAt h
  exact Cursor.boundary_of_reaches (hc.trans (Program.reaches_of_explore hu))

theorem lineStart_of_findAt {re : Regex} {t : Text} {offset : Nat} {m : Match}
    (hp : re.pattern.startsLine = true) (h : re.findAt t offset = some m) :
    Text.LineStart t m.start := by
  obtain ⟨c, _, u, _, hc, hu, rfl⟩ := exists_of_findAt h
  exact Cursor.lineStart_of_reaches hc (Pattern.holds_of_run hp hu)

theorem lineEnd_of_findAt {re : Regex} {t : Text} {offset : Nat} {m : Match}
    (hloops : re.pattern.loopsRead = true) (hp : re.pattern.endsLine = true)
    (h : re.findAt t offset = some m) : ∀ c ∈ (Text.after m.stop t).head?, c = '\n' := by
  rw [findAt, findFrom_eq_leftmost hloops] at h
  obtain ⟨c, u, hc, hu, rfl⟩ := Pattern.exists_of_leftmost h
  have hstop := ((Cursor.reaches_ofOffset t offset).trans hc).trans (Pattern.reaches_of_mem_runs hu)
  obtain ⟨taken, hrest, hpos, _⟩ := hstop
  have hafter : Text.after (Match.ofThread c.pos u).stop t = u.cursor.rest := by
    have hsplit : t = taken ++ u.cursor.rest := hrest
    rw [hsplit, Match.ofThread, hpos, Cursor.origin, Nat.zero_add, Text.after_size_append]
  have hlook := Pattern.holds_of_mem_runs hp hu
  intro d hd
  rw [hafter, Option.mem_def] at hd
  rw [Look.holds, hd] at hlook
  simpa using hlook

end Regex

end Marginalia
