import Marginalia.Proofs.Regex.Avoid
import Marginalia.Proofs.Regex.Captures
import Marginalia.Proofs.Regex.Literal
import Marginalia.Proofs.Text.Break
import Mathlib.Tactic.MkIffOfInductiveProp

/-! # Patterns and line breaks

Where newlines are written as two characters, a pattern may also stop between the two. Such places
are taken out of the count: a pattern that reads breaks of either form alike has the same runs
apart from them (`alike_runs`), and a search with it finds the same match (`findAt_crlf`).
-/

namespace Marginalia

open Text (Boundary)
open Pattern (Reaches)

namespace Cursor

/-- Whether the place lies between the two characters of a line break. -/
def inBreak (c : Cursor) : Bool := c.prev == some '\r' && c.rest.head? == some '\n'

/-- The same place of a text once its newlines are written as two characters. -/
def crlf (t : Text) (c : Cursor) : Cursor := ⟨Text.shift t c.pos, c.prev, Text.crlf c.rest⟩

variable {t : Text} {c : Cursor}

theorem inBreak_crlf (t : Text) (c : Cursor) : (c.crlf t).inBreak = false := by
  rw [inBreak, crlf, beq_false_of_ne (Text.head?_crlf c.rest), Bool.and_false]

theorem inBreak_of_prev (h : c.prev ≠ some '\r') : c.inBreak = false := by
  rw [inBreak, beq_false_of_ne h, Bool.false_and]

theorem inBreak_iff : c.inBreak = true ↔ c.prev = some '\r' ∧ c.rest.head? = some '\n' := by
  rw [inBreak, Bool.and_eq_true, beq_iff_eq, beq_iff_eq]

theorem shift_next (hc : Reaches (origin t) c) {d : Char} {rest : Text}
    (hrest : c.rest = d :: rest) :
    Text.shift t c.next.pos = Text.shift t c.pos + Text.size (Text.crlf [d]) := by
  obtain ⟨taken, htext, hpos, _⟩ := hc
  have htext : t = taken ++ c.rest := htext
  have hpos : c.pos = Text.size taken := by simpa [origin] using hpos
  have hnext : c.next.pos = Text.size (taken ++ [d]) := by simp [next, hrest, hpos]
  have hsplit : t = (taken ++ [d]) ++ rest := by rw [htext, hrest]; simp
  rw [hnext, hpos, htext, Text.shift_size_append, ← htext, hsplit, Text.shift_size_append,
    Text.crlf_append, Text.size_append]

theorem next_crlf (hc : Reaches (origin t) c) {d : Char} {rest : Text} (hrest : c.rest = d :: rest)
    (hd : d ≠ '\n') : (c.crlf t).next = c.next.crlf t := by
  have hpos := shift_next hc hrest
  rw [Text.crlf_cons hd] at hpos
  simp only [crlf, hpos]
  simp [next, hrest, Text.crlf_cons hd]

/-- A newline takes two steps, the first of which ends inside the break. -/
theorem next_crlf_newline (hc : Reaches (origin t) c) {rest : Text}
    (hrest : c.rest = '\n' :: rest) :
    (c.crlf t).next.inBreak = true ∧ (c.crlf t).next.next = c.next.crlf t := by
  have hpos := shift_next hc hrest
  constructor
  · simp [inBreak_iff, next, crlf, hrest, Text.crlf_newline]
  · simp only [crlf, hpos]
    simp [next, hrest, Text.crlf_newline, Nat.add_assoc]

theorem ofOffset_crlf {pos : Nat} (h : Boundary t pos) :
    ofOffset (Text.crlf t) (Text.shift t pos) = (ofOffset t pos).crlf t := by
  obtain ⟨a, b, rfl, rfl⟩ := h
  rw [Text.shift_size_append, Text.crlf_append, ofOffset_append, ofOffset_append, crlf,
    Text.shift_size_append, Text.getLast?_crlf]

end Cursor

def Capture.crlf (t : Text) (c : Capture) : Capture :=
  ⟨c.group, Text.shift t c.start, Text.shift t c.stop⟩

namespace Thread

def inBreak (u : Thread) : Bool := u.cursor.inBreak

def crlf (t : Text) (u : Thread) : Thread :=
  ⟨u.cursor.crlf t, u.captures.map (Capture.crlf t), u.entered.map (Text.shift t)⟩

theorem inBreak_crlf (t : Text) (u : Thread) : (u.crlf t).inBreak = false :=
  Cursor.inBreak_crlf t u.cursor

theorem inBreak_leave (u : Thread) (group : Nat) : (u.leave group).inBreak = u.inBreak := by
  rw [inBreak, cursor_leave, inBreak]

theorem leave_crlf (t : Text) (u : Thread) (group : Nat) :
    (u.crlf t).leave group = (u.leave group).crlf t := by
  obtain ⟨c, captures, entered⟩ := u
  cases entered <;> rfl

theorem advance_crlf {t : Text} {u : Thread} (hu : Reaches (.origin t) u.cursor) {d : Char}
    {rest : Text} (hrest : u.cursor.rest = d :: rest) (hd : d ≠ '\n') :
    (u.crlf t).advance = u.advance.crlf t := by
  have hnext : (u.crlf t).cursor.next = u.cursor.next.crlf t := Cursor.next_crlf hu hrest hd
  rw [advance, hnext]
  rfl

theorem advance_crlf_newline {t : Text} {u : Thread} (hu : Reaches (.origin t) u.cursor)
    {rest : Text} (hrest : u.cursor.rest = '\n' :: rest) :
    (u.crlf t).advance.inBreak = true ∧ (u.crlf t).advance.advance = u.advance.crlf t := by
  have hnext : (u.crlf t).cursor.next.inBreak = true ∧
      (u.crlf t).cursor.next.next = u.cursor.next.crlf t := Cursor.next_crlf_newline hu hrest
  refine ⟨hnext.1, ?_⟩
  rw [advance, advance, hnext.2]
  rfl

end Thread

namespace Pattern

/-- Where a pattern may lead from inside a line break. -/
inductive Exit where
  | nowhere
  | inside
  | anywhere
  deriving DecidableEq

/-- First what the one says, then the other. -/
def Exit.andThen : Exit → Exit → Exit
  | nowhere, _ => nowhere
  | inside, e => e
  | anywhere, _ => anywhere

def Exit.either : Exit → Exit → Exit
  | nowhere, e => e
  | inside, anywhere => anywhere
  | inside, _ => inside
  | anywhere, _ => anywhere

def exit : Pattern → Exit
  | empty => .inside
  | set s => if s.contains '\n' then .anywhere else .nowhere
  | look l => if l = .lineStart ∨ l = .textStart then .nowhere else .inside
  | seq p q => p.exit.andThen q.exit
  | alt p q => p.exit.either q.exit
  | group _ p => p.exit
  | star _ p => Exit.inside.either p.exit
  | plus _ p => p.exit

/-- Whether the pattern, once it is outside a line break, does not stop inside one. -/
def endsOutside : Pattern → Bool
  | empty => true
  | set s => !s.contains '\r'
  | look _ => true
  | seq p q => q.endsOutside && (p.endsOutside || q.exit = .nowhere)
  | alt p q => p.endsOutside && q.endsOutside
  | group _ p => p.endsOutside
  | star _ p => p.endsOutside
  | plus _ p => p.endsOutside

/-- Whether two patterns read the rest of a row, and then the line break as one character. -/
def endsRow : Pattern → Pattern → Bool
  | star _ (set s), set s' => s.contains '\r' && !s.contains '\n' && !s'.contains '\r'
  | _, _ => false

/-- Whether the pattern reads both characters of a line break. -/
def readsBoth : Pattern → Bool
  | set s => s.contains '\r' && s.contains '\n'
  | _ => false

/-- Whether the pattern reads line breaks of one and of two characters alike. -/
def readsBreaks : Pattern → Bool
  | empty => true
  | set s => !s.contains '\n'
  | look l => l = .lineStart ∨ l = .textStart
  | seq p q =>
    p.readsBreaks && q.readsBreaks && (p.endsOutside || q.exit ≠ .anywhere) || endsRow p q
  | alt p q => p.readsBreaks && q.readsBreaks
  | group _ p => p.readsBreaks
  | star _ p => p.readsBreaks && p.exit ≠ .anywhere || p.readsBoth
  | plus _ p => p.readsBreaks && p.exit ≠ .anywhere || p.readsBoth

def Exit.Allows : Exit → Thread → Prop
  | nowhere, _ => False
  | inside, u => u.inBreak = true
  | anywhere, _ => True

theorem Exit.Allows.inBreak {e : Exit} {u : Thread} (h : e.Allows u) (he : e ≠ anywhere) :
    u.inBreak = true := by
  cases e with
  | nowhere => exact h.elim
  | inside => exact h
  | anywhere => exact absurd rfl he

theorem Exit.Allows.left {e : Exit} {u : Thread} (h : e.Allows u) (e' : Exit) :
    (e.either e').Allows u := by
  cases e with
  | nowhere => exact h.elim
  | inside =>
    cases e' with
    | anywhere => trivial
    | _ => exact h
  | anywhere => trivial

theorem Exit.Allows.right {e' : Exit} {u : Thread} (h : e'.Allows u) (e : Exit) :
    (e.either e').Allows u := by
  cases e with
  | nowhere => exact h
  | inside =>
    cases e' with
    | nowhere => exact h.elim
    | _ => exact h
  | anywhere => trivial

theorem Exit.Allows.leave {e : Exit} {u : Thread} (h : e.Allows u) (group : Nat) :
    e.Allows (u.leave group) := by
  cases e with
  | nowhere => exact h.elim
  | inside => rwa [Allows, Thread.inBreak_leave]
  | anywhere => trivial

section Ways

variable {p : Pattern} {t u : Thread}

/-- Two ways in a row, the second of which starts inside a line break if the first ends there. -/
theorem Exit.Allows.andThen {e e' : Exit} {v : Thread} (hu : e.Allows u)
    (hv : u.inBreak = true → e'.Allows v) : (e.andThen e').Allows v := by
  cases e with
  | nowhere => exact hu.elim
  | inside => exact hv hu
  | anywhere => trivial

theorem Leads.allows (h : Leads p t u) (ht : t.inBreak = true) : p.exit.Allows u := by
  induction h with
  | empty => exact ht
  | @set s t hread =>
    rw [(Cursor.inBreak_iff.1 ht).2, Option.any_some] at hread
    rw [exit, if_pos hread]
    trivial
  | @look l t hlook =>
    rw [exit]
    split
    · rename_i hl
      rcases hl with rfl | rfl <;> simp [Look.holds, (Cursor.inBreak_iff.1 ht).1] at hlook
    · exact ht
  | seq _ _ ihp ihq => exact (ihp ht).andThen ihq
  | left _ ih => exact (ih ht).left _
  | right _ ih => exact (ih ht).right _
  | group _ ih => exact (ih ht).leave _
  | leave => exact Exit.Allows.left (e := .inside) ht _
  | @round greedy p t u v _ _ ihp ih =>
    by_cases hexit : p.exit = .anywhere
    · rw [exit, hexit]
      trivial
    · exact ih ((ihp ht).inBreak hexit)
  | @plus greedy p t u v _ _ ihp ih =>
    have hu := ihp ht
    have hv : u.inBreak = true → (Exit.inside.either p.exit).Allows v := ih
    rw [exit]
    cases hexit : p.exit with
    | nowhere =>
      rw [hexit] at hu
      exact hu.elim
    | inside =>
      rw [hexit] at hu hv
      exact hv hu
    | anywhere => trivial

theorem exit_star_ne {greedy : Bool} (h : p.exit ≠ .anywhere) :
    (star greedy p).exit ≠ .anywhere := by
  rw [exit]
  cases hexit : p.exit with
  | anywhere => exact absurd hexit h
  | _ => decide

theorem Leads.outside (h : Leads p t u) (hp : p.endsOutside = true) (ht : t.inBreak = false) :
    u.inBreak = false := by
  induction h with
  | empty => exact ht
  | @set s t hread =>
    cases hrest : t.cursor.rest with
    | nil => simp [hrest] at hread
    | cons c rest =>
      refine Cursor.inBreak_of_prev ?_
      rw [hrest, List.head?_cons, Option.any_some] at hread
      simp only [Thread.cursor_advance, Cursor.next, hrest, ne_eq, Option.some.injEq]
      rintro rfl
      simp [endsOutside, hread] at hp
  | look _ => exact ht
  | @seq p q t v u _ hq ihp ihq =>
    obtain ⟨hends, hor⟩ := Bool.and_eq_true_iff.1 hp
    cases hbreak : v.inBreak with
    | false => exact ihq hends hbreak
    | true =>
      rcases Bool.or_eq_true_iff.1 hor with hp | hexit
      · rw [ihp hp ht] at hbreak
        cases hbreak
      · have hallows := hq.allows hbreak
        rw [of_decide_eq_true hexit] at hallows
        exact hallows.elim
  | left _ ih => exact ih (Bool.and_eq_true_iff.1 hp).1 ht
  | right _ ih => exact ih (Bool.and_eq_true_iff.1 hp).2 ht
  | group _ ih =>
    rw [Thread.inBreak_leave]
    exact ih hp ht
  | leave => exact ht
  | round _ _ ihp ih => exact ih hp (ihp hp ht)
  | plus _ _ ihp ih => exact ih hp (ihp hp ht)

end Ways

/-! ## Runs over both forms of a text -/

/-- The threads that stand outside of line breaks. -/
def outside (us : List Thread) : List Thread := us.filter fun u => !u.inBreak

theorem outside_append (us vs : List Thread) : outside (us ++ vs) = outside us ++ outside vs :=
  List.filter_append ..

theorem outside_eq_self {us : List Thread} (h : ∀ u ∈ us, u.inBreak = false) : outside us = us := by
  refine List.filter_eq_self.2 fun u hu => ?_
  rw [h u hu]
  rfl

theorem outside_eq_nil {us : List Thread} (h : ∀ u ∈ us, u.inBreak = true) : outside us = [] := by
  refine List.filter_eq_nil_iff.2 fun u hu => ?_
  rw [h u hu]
  decide

/-- Threads inside line breaks may be dropped early if nothing comes of them. -/
theorem outside_flatMap {us : List Thread} {f : Thread → List Thread}
    (h : ∀ u ∈ us, u.inBreak = true → outside (f u) = []) :
    outside (us.flatMap f) = (outside us).flatMap fun u => outside (f u) := by
  induction us with
  | nil => rfl
  | cons u us ih =>
    have ih := ih fun v hv => h v (List.mem_cons_of_mem _ hv)
    rw [List.flatMap_cons, outside_append, ih]
    cases hu : u.inBreak with
    | false =>
      have hfirst : outside (u :: us) = u :: outside us := by simp [outside, hu]
      rw [hfirst, List.flatMap_cons]
    | true =>
      have hfirst : outside (u :: us) = outside us := by simp [outside, hu]
      rw [hfirst, h u List.mem_cons_self hu, List.nil_append]

variable {t : Text}

/-- From the same place of both forms of a text a step leads to the same places, apart from those
inside of line breaks. -/
def Alike (t : Text) (step : Thread → List Thread) (u : Thread) : Prop :=
  outside (step (u.crlf t)) = (step u).map (.crlf t)

theorem Alike.flatMap {step next : Thread → List Thread} {u : Thread} (h : Alike t step u)
    (hnext : ∀ v ∈ step u, Alike t next v)
    (hdrop : ∀ v ∈ step (u.crlf t), v.inBreak = true → outside (next v) = []) :
    Alike t (fun v => (step v).flatMap next) u := by
  rw [Alike, outside_flatMap hdrop, h, List.flatMap_map, List.map_flatMap, List.flatMap_def,
    List.flatMap_def]
  exact congrArg List.flatten (List.map_congr_left hnext)

theorem outside_map_crlf (us : List Thread) :
    outside (us.map (.crlf t)) = us.map (.crlf t) := by
  refine outside_eq_self fun v hv => ?_
  obtain ⟨u, _, rfl⟩ := List.mem_map.1 hv
  exact u.inBreak_crlf t

theorem outside_crlf (u : Thread) : outside [u.crlf t] = [u.crlf t] := outside_map_crlf [u]

theorem alike_of_eq {step : Thread → List Thread} {u : Thread}
    (h : step (u.crlf t) = (step u).map (.crlf t)) : Alike t step u := by
  rw [Alike, h, outside_map_crlf]

theorem alike_flatMap_of_eq {step next : Thread → List Thread} {u : Thread}
    (h : step (u.crlf t) = (step u).map (.crlf t)) (hnext : ∀ v ∈ step u, Alike t next v) :
    Alike t (fun v => (step v).flatMap next) u := by
  refine (alike_of_eq h).flatMap hnext fun v hv hbreak => ?_
  rw [h] at hv
  obtain ⟨w, _, rfl⟩ := List.mem_map.1 hv
  rw [w.inBreak_crlf t] at hbreak
  cases hbreak

/-- Away from line breaks a set reads the same character. -/
theorem runs_set_crlf (s : CharSet) {u : Thread} (hu : Reaches (.origin t) u.cursor)
    (hhead : u.cursor.rest.head? ≠ some '\n') :
    (set s).runs (u.crlf t) = ((set s).runs u).map (.crlf t) := by
  cases hrest : u.cursor.rest with
  | nil => simp [runs, Thread.crlf, Cursor.crlf, hrest]
  | cons c rest =>
    have hc : c ≠ '\n' := by simpa [hrest] using hhead
    have hhead : (u.crlf t).cursor.rest.head? = some c := by
      simp [Thread.crlf, Cursor.crlf, hrest, Text.crlf_cons hc]
    rw [runs, runs, hhead, hrest, List.head?_cons, Thread.advance_crlf hu hrest hc]
    split <;> rfl

/-- At a line break a set reads the carriage return, and from inside the break the newline. -/
theorem runs_set_crlf_newline (s : CharSet) {u : Thread} (hu : Reaches (.origin t) u.cursor)
    (hhead : u.cursor.rest.head? = some '\n') :
    (set s).runs (u.crlf t) = (if s.contains '\r' then [(u.crlf t).advance] else []) ∧
      (set s).runs (u.crlf t).advance = ((set s).runs u).map (.crlf t) ∧
      (u.crlf t).advance.inBreak = true := by
  obtain ⟨rest, hrest⟩ := List.head?_eq_some_iff.1 hhead
  obtain ⟨hbreak, hadvance⟩ := Thread.advance_crlf_newline hu hrest
  refine ⟨?_, ?_, hbreak⟩
  · simp [runs, Thread.crlf, Cursor.crlf, hrest, Text.crlf_newline]
  · rw [runs, runs, (Cursor.inBreak_iff.1 hbreak).2, hhead, hadvance]
    split <;> rfl

theorem alike_set {s : CharSet} (hs : s.contains '\n' = false) {u : Thread}
    (hu : Reaches (.origin t) u.cursor) : Alike t (set s).runs u := by
  by_cases hhead : u.cursor.rest.head? = some '\n'
  · obtain ⟨hreturn, _, hbreak⟩ := runs_set_crlf_newline s hu hhead
    have hnone : (set s).runs u = [] := by simp [runs, hhead, hs]
    rw [Alike, hnone, hreturn]
    refine outside_eq_nil fun v hv => ?_
    split at hv
    · rwa [List.mem_singleton.1 hv]
    · cases hv
  · exact alike_of_eq (runs_set_crlf s hu hhead)

section Loops

variable {greedy : Bool} {p : Pattern}

theorem runs_star (hread : p.nullable = false) (u : Thread) :
    (star greedy p).runs u =
      if greedy then (plus greedy p).runs u ++ [u] else u :: (plus greedy p).runs u := by
  rw [runs, iterate_length fun _ _ => length_lt_of_mem_runs hread]
  rfl

theorem alike_star_iff (hread : p.nullable = false) {u : Thread} :
    Alike t (star greedy p).runs u ↔ Alike t (plus greedy p).runs u := by
  rw [Alike, Alike, runs_star hread, runs_star hread]
  cases greedy with
  | true =>
    simp only [if_true, outside_append, outside_crlf, List.map_append, List.map_singleton,
      List.append_left_inj]
  | false =>
    have hfirst (us : List Thread) : outside (u.crlf t :: us) = u.crlf t :: outside us := by
      simp [outside, u.inBreak_crlf t]
    simp only [Bool.false_eq_true, if_false, hfirst, List.map_cons, List.cons.injEq, true_and]

theorem alike_plus (hread : p.nullable = false)
    (hp : ∀ u, Reaches (.origin t) u.cursor → Alike t p.runs u) (hexit : p.exit ≠ .anywhere)
    {u : Thread} (hu : Reaches (.origin t) u.cursor) : Alike t (plus greedy p).runs u := by
  have hstays {v : Thread} (hv : v.inBreak = true) : outside ((star greedy p).runs v) = [] :=
    outside_eq_nil fun w hw => ((leads_of_mem_runs hw).allows hv).inBreak (exit_star_ne hexit)
  generalize hlength : u.cursor.rest.length = length
  induction length using Nat.strongRecOn generalizing u with
  | ind length ih =>
    subst hlength
    refine (hp u hu).flatMap (fun v hv => (alike_star_iff hread).2 ?_) fun v _ => hstays
    exact ih _ (length_lt_of_mem_runs hread hv) (hu.trans (reaches_of_mem_runs hv)) rfl

theorem alike_plus_of_readsBoth (hp : p.readsBoth = true) {u : Thread}
    (hu : Reaches (.origin t) u.cursor) : Alike t (plus greedy p).runs u := by
  cases p with
  | set s =>
    obtain ⟨hreturn, hnewline⟩ := Bool.and_eq_true_iff.1 hp
    generalize hlength : u.cursor.rest.length = length
    induction length using Nat.strongRecOn generalizing u with
    | ind length ih =>
      subst hlength
      have hnext (v : Thread) (hv : v ∈ (set s).runs u) : Alike t (star greedy (set s)).runs v :=
        (alike_star_iff rfl).2 <|
          ih _ (length_lt_of_mem_runs rfl hv) (hu.trans (reaches_of_mem_runs hv)) rfl
      by_cases hhead : u.cursor.rest.head? = some '\n'
      · -- The carriage return is read first, and no thread stays between the two characters.
        obtain ⟨hfirst, hsecond, hbreak⟩ := runs_set_crlf_newline s hu hhead
        have hrun : (set s).runs u = [u.advance] := by simp [runs, hhead, hnewline]
        rw [hreturn, if_pos rfl] at hfirst
        rw [hrun, List.map_singleton] at hsecond
        have halike := hnext u.advance (by rw [hrun]; exact List.mem_singleton_self _)
        have hinside : outside [(u.crlf t).advance] = [] := by
          refine outside_eq_nil fun v hv => ?_
          rwa [List.mem_singleton.1 hv]
        have hinside' (us : List Thread) : outside ((u.crlf t).advance :: us) = outside us := by
          simp [outside, hbreak]
        rw [Alike, runs_plus, runs_plus, hfirst, hrun, List.flatMap_singleton,
          List.flatMap_singleton, runs_star rfl, runs_plus, hsecond, List.flatMap_singleton,
          ← halike]
        cases greedy with
        | true => simp only [if_true, outside_append, hinside, List.append_nil]
        | false => simp only [Bool.false_eq_true, if_false, hinside']
      · exact alike_flatMap_of_eq (runs_set_crlf s hu hhead) hnext
  | _ => cases hp

/-- The runs of a row's rest and then its end, by the character they read first. -/
theorem runs_row (s s' : CharSet) (u : Thread) :
    (seq (star greedy (set s)) (set s')).runs u =
      if greedy then
        ((set s).runs u).flatMap (seq (star greedy (set s)) (set s')).runs ++ (set s').runs u
      else
        (set s').runs u ++ ((set s).runs u).flatMap (seq (star greedy (set s)) (set s')).runs := by
  have hmore : ((plus greedy (set s)).runs u).flatMap (set s').runs =
      ((set s).runs u).flatMap (seq (star greedy (set s)) (set s')).runs := by
    rw [runs_plus, List.flatMap_assoc]
    rfl
  have hseq (v : Thread) : (seq (star greedy (set s)) (set s')).runs v =
      ((star greedy (set s)).runs v).flatMap (set s').runs := rfl
  rw [hseq, runs_star rfl]
  cases greedy with
  | true => simp only [if_true, List.flatMap_append, hmore, List.flatMap_singleton]
  | false => simp only [Bool.false_eq_true, if_false, List.flatMap_cons, hmore]

theorem alike_row {q : Pattern} (hpq : endsRow p q = true) {u : Thread}
    (hu : Reaches (.origin t) u.cursor) : Alike t (seq p q).runs u := by
  unfold endsRow at hpq
  split at hpq
  · rename_i greedy s s'
    simp only [Bool.and_eq_true, Bool.not_eq_true'] at hpq
    obtain ⟨⟨hreturn, hnewline⟩, hreturn'⟩ := hpq
    generalize hlength : u.cursor.rest.length = length
    induction length using Nat.strongRecOn generalizing u with
    | ind length ih =>
      subst hlength
      have hnext (v : Thread) (hv : v ∈ (set s).runs u) :
          Alike t (seq (star greedy (set s)) (set s')).runs v :=
        ih _ (length_lt_of_mem_runs rfl hv) (hu.trans (reaches_of_mem_runs hv)) rfl
      by_cases hhead : u.cursor.rest.head? = some '\n'
      · obtain ⟨hfirst, hsecond, _⟩ := runs_set_crlf_newline s hu hhead
        obtain ⟨hfirst', hsecond', _⟩ := runs_set_crlf_newline s' hu hhead
        have hstop : (set s).runs u = [] := by simp [runs, hhead, hnewline]
        rw [hreturn, if_pos rfl] at hfirst
        rw [hreturn', if_neg Bool.false_ne_true] at hfirst'
        refine alike_of_eq ?_
        rw [runs_row, runs_row, hfirst, hfirst', hstop, List.flatMap_singleton, runs_row, hsecond,
          hsecond', hstop]
        cases greedy <;> simp
      · have hmore := alike_flatMap_of_eq (runs_set_crlf s hu hhead) hnext
        have hlast := alike_of_eq (runs_set_crlf s' hu hhead)
        rw [Alike] at hmore hlast
        rw [Alike, runs_row, runs_row]
        cases greedy with
        | true => simp only [if_true, outside_append, hmore, hlast, List.map_append]
        | false =>
          simp only [Bool.false_eq_true, if_false, outside_append, hmore, hlast, List.map_append]
  · cases hpq

end Loops

theorem alike_runs {p : Pattern} (hp : p.readsBreaks = true) (hloops : p.loopsRead = true)
    {u : Thread} (hu : Reaches (.origin t) u.cursor) : Alike t p.runs u := by
  induction p generalizing u with
  | empty => exact outside_crlf u
  | set s => exact alike_set (by simpa [readsBreaks] using hp) hu
  | look l =>
    have hlook : l.holds (u.crlf t).cursor = l.holds u.cursor := by
      rcases of_decide_eq_true hp with rfl | rfl <;> rfl
    refine alike_of_eq ?_
    rw [runs, runs, hlook]
    split <;> rfl
  | seq p q ihp ihq =>
    obtain ⟨hloopsp, hloopsq⟩ := Bool.and_eq_true_iff.1 hloops
    rcases Bool.or_eq_true_iff.1 hp with hp | hrow
    · simp only [Bool.and_eq_true, Bool.or_eq_true, decide_eq_true_eq] at hp
      obtain ⟨⟨hp, hq⟩, hbetween⟩ := hp
      refine (ihp hp hloopsp hu).flatMap (fun v hv => ?_) fun v hv hbreak => ?_
      · exact ihq hq hloopsq (hu.trans (reaches_of_mem_runs hv))
      · rcases hbetween with hout | hexit
        · rw [(leads_of_mem_runs hv).outside hout (u.inBreak_crlf t)] at hbreak
          cases hbreak
        · exact outside_eq_nil fun w hw => ((leads_of_mem_runs hw).allows hbreak).inBreak hexit
    · exact alike_row hrow hu
  | alt p q ihp ihq =>
    obtain ⟨hloopsp, hloopsq⟩ := Bool.and_eq_true_iff.1 hloops
    obtain ⟨hp, hq⟩ := Bool.and_eq_true_iff.1 hp
    rw [Alike, runs, runs, outside_append, ihp hp hloopsp hu, ihq hq hloopsq hu, List.map_append]
  | group n p ih =>
    have hinner : outside (p.runs (u.crlf t).enter) = (p.runs u.enter).map (.crlf t) :=
      ih hp hloops (u := u.enter) hu
    have hleave : (fun v => !v.inBreak) ∘ Thread.leave n = fun v => !v.inBreak := by
      funext v
      rw [Function.comp_apply, Thread.inBreak_leave]
    rw [Alike, runs, runs, outside, List.filter_map, hleave, ← outside, hinner, List.map_map,
      List.map_map]
    exact List.map_congr_left fun v _ => v.leave_crlf t n
  | star greedy p ih =>
    obtain ⟨hloops, hread⟩ := Bool.and_eq_true_iff.1 hloops
    have hread : p.nullable = false := by simpa using hread
    rw [alike_star_iff hread]
    rcases Bool.or_eq_true_iff.1 hp with hp | hboth
    · obtain ⟨hp, hexit⟩ := Bool.and_eq_true_iff.1 hp
      exact alike_plus hread (fun _ hv => ih hp hloops hv) (of_decide_eq_true hexit) hu
    · exact alike_plus_of_readsBoth hboth hu
  | plus greedy p ih =>
    obtain ⟨hloops, hread⟩ := Bool.and_eq_true_iff.1 hloops
    have hread : p.nullable = false := by simpa using hread
    rcases Bool.or_eq_true_iff.1 hp with hp | hboth
    · obtain ⟨hp, hexit⟩ := Bool.and_eq_true_iff.1 hp
      exact alike_plus hread (fun _ hv => ih hp hloops hv) (of_decide_eq_true hexit) hu
    · exact alike_plus_of_readsBoth hboth hu

/-- Patterns with which a search over both forms of a text finds the same matches. -/
@[mk_iff]
structure Unbroken (p : Pattern) : Prop where
  loopsRead : p.loopsRead = true
  readsBreaks : p.readsBreaks = true
  endsOutside : p.endsOutside = true
  exit : p.exit = .nowhere

instance (p : Pattern) : Decidable p.Unbroken := decidable_of_iff' _ (unbroken_iff p)

end Pattern

def Match.crlf (t : Text) (m : Match) : Match :=
  ⟨Text.shift t m.start, Text.shift t m.stop, m.captures.map (Capture.crlf t)⟩

namespace Pattern

variable {t : Text} {p : Pattern}

theorem Unbroken.runs_crlf (h : p.Unbroken) {u : Thread} (hu : Reaches (.origin t) u.cursor) :
    p.runs (u.crlf t) = (p.runs u).map (.crlf t) := by
  have halike : outside (p.runs (u.crlf t)) = (p.runs u).map (.crlf t) :=
    alike_runs h.readsBreaks h.loopsRead hu
  rwa [outside_eq_self fun v hv =>
    (leads_of_mem_runs hv).outside h.endsOutside (u.inBreak_crlf t)] at halike

theorem Unbroken.matchHere_crlf (h : p.Unbroken) {c : Cursor} (hc : Reaches (.origin t) c) :
    p.matchHere (c.crlf t) = (p.matchHere c).map (.crlf t) := by
  have hruns : p.runs (.start (c.crlf t)) = (p.runs (.start c)).map (.crlf t) :=
    h.runs_crlf (u := .start c) hc
  rw [matchHere, hruns, List.head?_map, Option.map_map, matchHere, Option.map_map]
  rfl

theorem Unbroken.matchHere_of_inBreak (h : p.Unbroken) {c : Cursor} (hc : c.inBreak = true) :
    p.matchHere c = none := by
  have hnil : p.runs (.start c) = [] := by
    refine List.eq_nil_iff_forall_not_mem.2 fun u hu => ?_
    have hallows := (leads_of_mem_runs hu).allows hc
    rw [h.exit] at hallows
    exact hallows
  rw [matchHere, hnil]
  rfl

theorem Unbroken.leftmost_crlf (h : p.Unbroken) {c : Cursor} (hc : Reaches (.origin t) c) :
    p.leftmost (c.crlf t).pos (c.crlf t).prev (c.crlf t).rest =
      (p.leftmost c.pos c.prev c.rest).map (.crlf t) := by
  obtain ⟨pos, prev, rest⟩ := c
  induction rest generalizing pos prev with
  | nil => exact h.matchHere_crlf hc
  | cons d rest ih =>
    have hnext : Reaches (.origin t) ⟨pos + d.utf8Size, some d, rest⟩ :=
      hc.trans (reaches_tail pos prev d rest)
    have hhere := h.matchHere_crlf hc
    have ih := ih _ _ hnext
    have hlater : p.leftmost (Text.shift t pos) prev (Text.crlf (d :: rest)) =
        (p.matchHere (Cursor.crlf t ⟨pos, prev, d :: rest⟩)).or
          ((p.leftmost (pos + d.utf8Size) (some d) rest).map (.crlf t)) := by
      rw [← ih]
      by_cases hd : d = '\n'
      · subst hd
        obtain ⟨hbreak, hafter⟩ := Cursor.next_crlf_newline hc rfl
        have hnone : p.matchHere
            ⟨Text.shift t pos + '\r'.utf8Size, some '\r', '\n' :: Text.crlf rest⟩ = none :=
          h.matchHere_of_inBreak hbreak
        have hpos : Text.shift t pos + '\r'.utf8Size + '\n'.utf8Size =
            Text.shift t (pos + '\n'.utf8Size) := congrArg Cursor.pos hafter
        rw [Text.crlf_newline, leftmost, leftmost, hnone, Option.none_or, hpos]
        rfl
      · have hafter := Cursor.next_crlf hc rfl hd
        rw [Cursor.crlf, Text.crlf_cons hd] at hafter ⊢
        have hpos : Text.shift t pos + d.utf8Size = Text.shift t (pos + d.utf8Size) :=
          congrArg Cursor.pos hafter
        rw [leftmost, hpos]
        rfl
    rw [leftmost, Option.map_or, ← hhere]
    exact hlater

end Pattern

namespace Regex

theorem findFrom_crlf {re : Regex} (h : re.pattern.Unbroken) {t : Text} {c : Cursor}
    (hc : Reaches (.origin t) c) : re.findFrom (c.crlf t) = (re.findFrom c).map (.crlf t) := by
  rw [findFrom_eq_leftmost h.loopsRead, findFrom_eq_leftmost h.loopsRead]
  exact h.leftmost_crlf hc

theorem findAt_crlf {re : Regex} (h : re.pattern.Unbroken) {t : Text} {pos : Nat}
    (hpos : Boundary t pos) :
    re.findAt (Text.crlf t) (Text.shift t pos) = (re.findAt t pos).map (.crlf t) := by
  rw [findAt, findAt, Cursor.ofOffset_crlf hpos]
  exact findFrom_crlf h (Cursor.reaches_ofOffset t pos)

variable {re : Regex} {t : Text} {offset : Nat} {m : Match}

theorem range?_crlf (t : Text) (m : Match) (n : Nat) :
    (m.crlf t).range? n = (m.range? n).map fun r => (Text.shift t r.1, Text.shift t r.2) := by
  rw [Match.range?, Match.range?]
  split
  · rfl
  · rw [Match.crlf, List.find?_map, Option.map_map, Option.map_map]
    rfl

theorem group?_crlf (h : re.findAt t offset = some m) (n : Nat) :
    (m.crlf t).group? (Text.crlf t) n = (m.group? t n).map Text.crlf := by
  rw [Match.group?, Match.group?, range?_crlf]
  cases hr : m.range? n with
  | none => rfl
  | some r =>
    obtain ⟨_, hle, _, hstart, hstop⟩ := bounds_of_range? h hr
    exact congrArg some (Text.slice_shift hstart hstop hle)

theorem text_crlf (h : re.findAt t offset = some m) :
    (m.crlf t).text (Text.crlf t) = Text.crlf (m.text t) :=
  Text.slice_shift (boundary_start_of_findAt h) (boundary_stop_of_findAt h)
    (start_le_stop_of_findAt h)

end Regex

end Marginalia
