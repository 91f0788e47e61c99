import Marginalia.Regex.Pattern
import Std.Data.HashSet

/-! # Programs

A pattern is run as a program: steps that name the steps after them. A run follows the preferred
branches first and returns to the others when it fails. Whether a step leads to a match depends on
nothing but the place in the text, so no run enters a fork twice at one place, nor do later runs
from other places; this also ends loops that read nothing.
-/

namespace Marginalia

inductive Step where
  | accept
  | take (s : CharSet) (next : Nat)
  | look (l : Look) (next : Nat)
  /-- Goes on with `a`, or else with `b`. -/
  | fork (a b : Nat)
  | enter (next : Nat)
  | leave (group next : Nat)

/-- The steps, by number; the first one accepts. -/
abbrev Program := Array Step

namespace Pattern

def fork (greedy : Bool) (more done : Nat) : Step :=
  if greedy then .fork more done else .fork done more

/-- How many steps a pattern takes. -/
def steps : Pattern → Nat
  | empty => 0
  | set _ => 1
  | look _ => 1
  | seq p q => q.steps + p.steps
  | alt p q => q.steps + p.steps + 1
  | group _ p => p.steps + 2
  | star _ p => p.steps + 1
  | plus _ p => p.steps + 1

/-- Adds steps that do what a pattern says and go on with the step `next`. Gives the number of the
first of them. The fork between the rounds of a loop stands after the steps of a round. -/
def build : Pattern → Nat → Program → Nat × Program
  | empty, next, prog => (next, prog)
  | set s, next, prog => (prog.size, prog.push (.take s next))
  | look l, next, prog => (prog.size, prog.push (.look l next))
  | seq p q, next, prog =>
    let (middle, prog) := q.build next prog
    p.build middle prog
  | alt p q, next, prog =>
    let (b, prog) := q.build next prog
    let (a, prog) := p.build next prog
    (prog.size, prog.push (.fork a b))
  | group n p, next, prog =>
    let (inner, prog') := p.build prog.size (prog.push (.leave n next))
    (prog'.size, prog'.push (.enter inner))
  | star greedy p, next, prog =>
    let last := prog.size + p.steps
    let (first, prog) := p.build last prog
    (last, prog.push (fork greedy first next))
  | plus greedy p, next, prog =>
    let (first, prog) := p.build (prog.size + p.steps) prog
    (first, prog.push (fork greedy first next))

end Pattern

/-- What a step makes of a thread. -/
inductive Action where
  | fail
  | accept
  | go (next : Nat) (t : Thread)
  | fork (a b : Nat)

def Step.act (t : Thread) : Step → Action
  | accept => .accept
  | take s next => if t.cursor.rest.head?.any s.contains then .go next t.advance else .fail
  | look l next => if l.holds t.cursor then .go next t else .fail
  | fork a b => .fork a b
  | enter next => .go next t.enter
  | leave group next => .go next (t.leave group)

/-- The forks entered so far, each with the offset where that was. -/
abbrev Visited := Std.HashSet (Nat × Nat)

namespace Program

/-- What the step of a number makes of a thread; without a step the thread fails. -/
def act (prog : Program) (i : Nat) (t : Thread) : Action :=
  match prog[i]? with
  | none => .fail
  | some step => step.act t

/-- The first accepting thread that a thread at a step leads to, and the forks passed. -/
def explore (prog : Program) : Nat → Visited → Nat → Thread → Option Thread × Visited
  | 0, seen, _, _ => (none, seen)
  | fuel + 1, seen, i, t =>
    match prog.act i t with
    | .fail => (none, seen)
    | .accept => (some t, seen)
    | .go next u => prog.explore fuel seen next u
    | .fork a b =>
      if seen.contains (i, t.cursor.pos) then (none, seen)
      else
        match prog.explore fuel (seen.insert (i, t.cursor.pos)) a t with
        | (some u, seen) => (some u, seen)
        | (none, seen) => prog.explore fuel seen b t

theorem reaches_of_act {prog : Program} {i next : Nat} {t u : Thread}
    (h : prog.act i t = .go next u) : Pattern.Reaches t.cursor u.cursor := by
  unfold act at h
  split at h
  · cases h
  · rename_i step _
    cases step with
    | accept => cases h
    | fork a b => cases h
    | take s next =>
      simp only [Step.act] at h
      split at h <;> cases h
      exact .next _
    | look l next =>
      simp only [Step.act] at h
      split at h <;> cases h
      exact .refl _
    | enter next =>
      cases h
      exact .refl _
    | leave group next =>
      cases h
      rw [Thread.cursor_leave]
      exact .refl _

/-- A run only moves forward, over whole characters. -/
theorem reaches_of_explore {prog : Program} {fuel : Nat} {seen : Visited} {i : Nat} {t u : Thread}
    (h : (prog.explore fuel seen i t).1 = some u) : Pattern.Reaches t.cursor u.cursor := by
  induction fuel generalizing seen i t with
  | zero => cases h
  | succ fuel ih =>
    rw [explore] at h
    split at h
    · cases h
    · obtain rfl := Option.some.inj h
      exact .refl _
    · rename_i hact
      exact (reaches_of_act hact).trans (ih h)
    · split at h
      · cases h
      · split at h
        · rename_i hu
          obtain rfl := Option.some.inj h
          exact ih (congrArg Prod.fst hu)
        · exact ih h

end Program

/-- A program with the step that it starts at. -/
structure Machine where
  start : Nat
  program : Program

/-- The steps of a pattern, with nothing to do after it. -/
def Pattern.machine (p : Pattern) : Machine :=
  let (start, program) := p.build 0 #[.accept]
  ⟨start, program⟩

/-- The preferred thread that a machine accepts from a cursor on, past the forks that are known to
lead nowhere. A run passes each step at most twice between two characters. -/
def Machine.run (m : Machine) (seen : Visited) (c : Cursor) : Option Thread × Visited :=
  m.program.explore (2 * m.program.size * (c.rest.length + 1)) seen m.start (.start c)

end Marginalia
