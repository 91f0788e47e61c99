import Marginalia.Regex.CharSet
import Marginalia.Regex.Cursor

/-! # Patterns

A pattern leads a thread to the threads it can continue as, the preferred one first. `runs` lists
them all, for patterns in which every round of a loop reads something. Threads only move forward,
over whole characters (`reaches_of_mem_runs`).
-/

namespace Marginalia

/-- The byte range that a numbered group took part in. -/
structure Capture where
  group : Nat
  start : Nat
  stop : Nat
  deriving DecidableEq

/-- A match under way: where it stands, its captures, the newest first, and where the groups that it
is inside of were entered, the innermost first. -/
structure Thread where
  cursor : Cursor
  captures : List Capture
  entered : List Nat

namespace Thread

def start (c : Cursor) : Thread := ⟨c, [], []⟩

def advance (t : Thread) : Thread := { t with cursor := t.cursor.next }

def enter (t : Thread) : Thread := { t with entered := t.cursor.pos :: t.entered }

/-- Ends the group that was entered last. -/
def leave (group : Nat) (t : Thread) : Thread :=
  match t.entered with
  | [] => t
  | start :: outer =>
    { t with captures := ⟨group, start, t.cursor.pos⟩ :: t.captures, entered := outer }

@[simp] theorem cursor_advance (t : Thread) : t.advance.cursor = t.cursor.next := rfl

@[simp] theorem cursor_enter (t : Thread) : t.enter.cursor = t.cursor := rfl

@[simp] theorem cursor_leave (t : Thread) (group : Nat) : (t.leave group).cursor = t.cursor := by
  unfold leave
  split <;> rfl

end Thread

inductive Pattern where
  | empty
  | set (s : CharSet)
  | look (l : Look)
  | seq (p q : Pattern)
  | alt (p q : Pattern)
  | group (n : Nat) (p : Pattern)
  /-- Any number of rounds. -/
  | star (greedy : Bool) (p : Pattern)
  /-- One round or more. -/
  | plus (greedy : Bool) (p : Pattern)
  deriving DecidableEq

namespace Pattern

def char (c : Char) : Pattern := set (.char c)

/-- A pattern or nothing; the pattern is preferred if greedy. -/
def opt (greedy : Bool) (p : Pattern) : Pattern := if greedy then alt p empty else alt empty p

def optional (p : Pattern) : Pattern := opt true p

def sequence : List Pattern → Pattern
  | [] => empty
  | [p] => p
  | p :: q :: rest => seq p (sequence (q :: rest))

/-- Several patterns, the preferred one first. -/
def choice : List Pattern → Pattern
  | [] => set .empty
  | [p] => p
  | p :: q :: rest => alt p (choice (q :: rest))

/-- Exactly `n` rounds. -/
def power (p : Pattern) : Nat → Pattern
  | 0 => empty
  | 1 => p
  | n + 1 => seq (p.power n) p

/-- At most `n` rounds. -/
def upTo (greedy : Bool) (p : Pattern) : Nat → Pattern
  | 0 => empty
  | 1 => opt greedy p
  | n + 1 => opt greedy (seq p (p.upTo greedy n))

/-- Any number of spaces and tabs. -/
def indent : Pattern := star true (set .indent)

/-- Whether the pattern may match the empty text. -/
def nullable : Pattern → Bool
  | empty => true
  | set _ => false
  | look _ => true
  | seq p q => p.nullable && q.nullable
  | alt p q => p.nullable || q.nullable
  | group _ p => p.nullable
  | star _ _ => true
  | plus _ p => p.nullable

/-- Any number of rounds. If a round may read nothing, there is a fork after it besides the one
before the loop, so that such a round does not end where it started. -/
def many (greedy : Bool) (p : Pattern) : Pattern :=
  if p.nullable then opt greedy (plus greedy p) else star greedy p

/-- As many rounds as two counts allow, the second of which may be missing. -/
def repeated (greedy : Bool) (least : Nat) (most : Option Nat) (p : Pattern) : Pattern :=
  match least, most with
  | 0, some n => p.upTo greedy n
  | m, some n => if m = n then p.power m else seq (p.power m) (p.upTo greedy (n - m))
  | 0, none => p.many greedy
  | 1, none => plus greedy p
  | m + 1, none => seq (p.power m) (plus greedy p)

/-- Whether every round of a loop reads something. -/
def loopsRead : Pattern → Bool
  | empty => true
  | set _ => true
  | look _ => true
  | seq p q => p.loopsRead && q.loopsRead
  | alt p q => p.loopsRead && q.loopsRead
  | group _ p => p.loopsRead
  | star _ p => p.loopsRead && !p.nullable
  | plus _ p => p.loopsRead && !p.nullable

/-- Repeats a step up to `fuel` times; a greedy loop prefers to go on, a lazy one to leave. -/
def iterate (greedy : Bool) (step : Thread → List Thread) : Nat → Thread → List Thread
  | 0, t => [t]
  | fuel + 1, t =>
    let more := (step t).flatMap (iterate greedy step fuel)
    if greedy then more ++ [t] else t :: more

/-- The threads that a pattern leads to, in order of preference. A round that reads something leaves
fewer characters, so that there are at most as many further rounds as characters are left. -/
def runs : Pattern → Thread → List Thread
  | empty, t => [t]
  | set s, t => if t.cursor.rest.head?.any s.contains then [t.advance] else []
  | look l, t => if l.holds t.cursor then [t] else []
  | seq p q, t => (p.runs t).flatMap fun u => q.runs u
  | alt p q, t => p.runs t ++ q.runs t
  | group n p, t => (p.runs t.enter).map (Thread.leave n)
  | star greedy p, t => iterate greedy (fun u => p.runs u) t.cursor.rest.length t
  | plus greedy p, t =>
    (p.runs t).flatMap fun u => iterate greedy (fun v => p.runs v) u.cursor.rest.length u

/-- A cursor moved from `c` to `d` over whole characters. -/
def Reaches (c d : Cursor) : Prop :=
  ∃ taken : Text, c.rest = taken ++ d.rest ∧ d.pos = c.pos + Text.size taken ∧
    d.prev = taken.getLast?.or c.prev

theorem Reaches.refl (c : Cursor) : Reaches c c := ⟨[], rfl, rfl, rfl⟩

theorem Reaches.trans {c d e : Cursor} (h : Reaches c d) (h' : Reaches d e) : Reaches c e := by
  obtain ⟨a, ha, hpos, hprev⟩ := h
  obtain ⟨b, hb, hpos', hprev'⟩ := h'
  refine ⟨a ++ b, by rw [ha, hb, List.append_assoc], ?_, ?_⟩
  · rw [hpos', hpos, Text.size_append, Nat.add_assoc]
  · rw [hprev', hprev, List.getLast?_append, Option.or_assoc]

theorem Reaches.next (c : Cursor) : Reaches c c.next := by
  cases h : c.rest with
  | nil => simpa [Cursor.next, h] using Reaches.refl c
  | cons d rest => refine ⟨[d], ?_, ?_, ?_⟩ <;> simp [Cursor.next, h]

theorem Reaches.length_le {c d : Cursor} (h : Reaches c d) : d.rest.length ≤ c.rest.length := by
  obtain ⟨taken, hrest, _⟩ := h
  simp [hrest]

/-- From one place on, the offset tells places apart. -/
theorem Reaches.eq_of_pos_eq {b c d : Cursor} (h : Reaches b c) (h' : Reaches b d)
    (hpos : c.pos = d.pos) : c = d := by
  obtain ⟨taken, hrest, hc, hprev⟩ := h
  obtain ⟨taken', hrest', hd, hprev'⟩ := h'
  obtain ⟨rfl, htail⟩ := Text.append_inj_of_size (hrest.symm.trans hrest') (by omega)
  cases c
  cases d
  simp_all

theorem reaches_of_mem_iterate {greedy : Bool} {step : Thread → List Thread}
    (hstep : ∀ t, ∀ u ∈ step t, Reaches t.cursor u.cursor) {fuel : Nat} {t u : Thread}
    (h : u ∈ iterate greedy step fuel t) : Reaches t.cursor u.cursor := by
  induction fuel generalizing t with
  | zero =>
    obtain rfl := List.mem_singleton.1 h
    exact .refl _
  | succ fuel ih =>
    have key : u = t ∨ u ∈ (step t).flatMap (iterate greedy step fuel) := by
      cases greedy <;> simp only [iterate, Bool.false_eq_true, if_false, if_true, List.mem_cons,
        List.mem_append, List.not_mem_nil, or_false] at h
      · exact h
      · exact h.symm
    rcases key with rfl | h
    · exact .refl _
    · obtain ⟨v, hv, hu⟩ := List.mem_flatMap.1 h
      exact (hstep t v hv).trans (ih hu)

theorem reaches_of_mem_runs {p : Pattern} {t u : Thread} (h : u ∈ p.runs t) :
    Reaches t.cursor u.cursor := by
  induction p generalizing t u with
  | empty =>
    obtain rfl := List.mem_singleton.1 h
    exact .refl _
  | set s =>
    rw [runs] at h
    split at h
    · obtain rfl := List.mem_singleton.1 h
      exact .next _
    · exact absurd h List.not_mem_nil
  | look l =>
    rw [runs] at h
    split at h
    · obtain rfl := List.mem_singleton.1 h
      exact .refl _
    · exact absurd h List.not_mem_nil
  | seq p q hp hq =>
    obtain ⟨v, hv, hu⟩ := List.mem_flatMap.1 h
    exact (hp hv).trans (hq hu)
  | alt p q hp hq => exact (List.mem_append.1 h).elim hp hq
  | group n p hp =>
    obtain ⟨v, hv, rfl⟩ := List.mem_map.1 h
    rw [Thread.cursor_leave, ← t.cursor_enter]
    exact hp hv
  | star greedy p hp => exact reaches_of_mem_iterate (fun _ _ => hp) h
  | plus greedy p hp =>
    obtain ⟨v, hv, hu⟩ := List.mem_flatMap.1 h
    exact (hp hv).trans (reaches_of_mem_iterate (fun _ _ => hp) hu)

/-- A pattern that does not match the empty text reads something. -/
theorem length_lt_of_mem_runs {p : Pattern} {t u : Thread} (hp : p.nullable = false)
    (h : u ∈ p.runs t) : u.cursor.rest.length < t.cursor.rest.length := by
  induction p generalizing t u with
  | empty => cases hp
  | set s =>
    rw [runs] at h
    split at h
    · rename_i hs
      obtain rfl := List.mem_singleton.1 h
      cases hrest : t.cursor.rest with
      | nil => simp [hrest] at hs
      | cons c rest => simp [Cursor.next, hrest]
    · exact absurd h List.not_mem_nil
  | look l => cases hp
  | seq p q ihp ihq =>
    obtain ⟨v, hv, hu⟩ := List.mem_flatMap.1 h
    rcases Bool.and_eq_false_iff.1 hp with hp | hq
    · exact Nat.lt_of_le_of_lt (reaches_of_mem_runs hu).length_le (ihp hp hv)
    · exact Nat.lt_of_lt_of_le (ihq hq hu) (reaches_of_mem_runs hv).length_le
  | alt p q ihp ihq =>
    obtain ⟨hp, hq⟩ := Bool.or_eq_false_iff.1 hp
    exact (List.mem_append.1 h).elim (ihp hp) (ihq hq)
  | group n p ih =>
    obtain ⟨v, hv, rfl⟩ := List.mem_map.1 h
    rw [Thread.cursor_leave, ← t.cursor_enter]
    exact ih hp hv
  | star greedy p _ => cases hp
  | plus greedy p ih =>
    obtain ⟨v, hv, hu⟩ := List.mem_flatMap.1 h
    exact Nat.lt_of_le_of_lt
      (reaches_of_mem_iterate (fun _ _ => reaches_of_mem_runs) hu).length_le (ih hp hv)

end Pattern

end Marginalia
