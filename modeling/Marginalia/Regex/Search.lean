import Marginalia.Regex.Footprint
import Marginalia.Regex.Program
import Marginalia.Regex.Reader

/-! # Searching with patterns

A search takes the leftmost place at which the pattern matches and, there, its preferred match. The
text before the place where a search starts is still seen by assertions.
-/

namespace Marginalia

/-- A compiled pattern, with the text it was read from and the numbers of its named groups. -/
structure Regex where
  source : Text
  pattern : Pattern
  names : List (Text × Nat)
  deriving DecidableEq

/-- The byte range of a match and what its groups captured. -/
structure Match where
  start : Nat
  stop : Nat
  captures : List Capture

namespace Match

/-- What a thread that started at an offset has come to. -/
def ofThread (start : Nat) (t : Thread) : Match := ⟨start, t.cursor.pos, t.captures⟩

/-- The byte range of a group; group 0 is the whole match. -/
def range? (m : Match) (n : Nat) : Option (Nat × Nat) :=
  if n = 0 then some (m.start, m.stop)
  else (m.captures.find? (·.group == n)).map fun c => (c.start, c.stop)

/-- The text of a group in the text that was searched. -/
def group? (m : Match) (t : Text) (n : Nat) : Option Text :=
  (m.range? n).map fun r => Text.slice r.1 r.2 t

def text (m : Match) (t : Text) : Text := Text.slice m.start m.stop t

def isEmpty (m : Match) : Bool := m.start == m.stop

end Match

namespace Regex

def compile? (source : Text) : Option Regex := do
  let (e, names) ← read? source
  if e.fits then some ⟨source, e.toPattern, names⟩ else none

/-- The leftmost match at or after a place, which is given by its parts. -/
def search (machine : Machine) (seen : Visited) (pos : Nat) (prev : Option Char) :
    Text → Option Match
  | [] => (machine.run seen ⟨pos, prev, []⟩).1.map (.ofThread pos)
  | c :: rest =>
    match machine.run seen ⟨pos, prev, c :: rest⟩ with
    | (some t, _) => some (.ofThread pos t)
    | (none, seen) => search machine seen (pos + c.utf8Size) (some c) rest

def findFrom (re : Regex) (c : Cursor) : Option Match :=
  search re.pattern.machine ∅ c.pos c.prev c.rest

/-- The leftmost match that starts at or after a byte offset. -/
def findAt (re : Regex) (t : Text) (offset : Nat) : Option Match :=
  re.findFrom (.ofOffset t offset)

def find (re : Regex) (t : Text) : Option Match := re.findAt t 0

def isMatch (re : Regex) (t : Text) : Bool := (re.find t).isSome

/-- The leftmost match from `offset` on, except an empty one right at the end of the last match. -/
def nextMatch (re : Regex) (t : Text) (offset : Nat) (last : Option Nat) : Option Match :=
  match re.findAt t offset with
  | none => none
  | some m =>
    if m.isEmpty && last == some m.stop then
      if offset < Text.size t then re.findAt t (offset + 1) else none
    else some m

def matchesFrom (re : Regex) (t : Text) : Nat → Nat → Option Nat → List Match
  | 0, _, _ => []
  | fuel + 1, offset, last =>
    match re.nextMatch t offset last with
    | none => []
    | some m => m :: re.matchesFrom t fuel m.stop (some m.stop)

/-- The successive matches in a text, from left to right. Their ends ascend, so there are no more of
them than places in the text. -/
def matchesIn (re : Regex) (t : Text) : List Match := re.matchesFrom t (t.length + 2) 0 none

/-- The texts before, between and after the given matches, the first of them after `offset`. -/
def piecesFrom (t : Text) (offset : Nat) : List Match → List Text
  | [] => [Text.after offset t]
  | m :: rest => Text.slice offset m.start t :: piecesFrom t m.stop rest

/-- The texts that the matches leave. -/
def split (re : Regex) (t : Text) : List Text := piecesFrom t 0 (re.matchesIn t)

def replaceFrom (sub : Match → Text) (t : Text) (offset : Nat) : List Match → Text
  | [] => Text.after offset t
  | m :: rest => Text.slice offset m.start t ++ sub m ++ replaceFrom sub t m.stop rest

/-- Puts `sub m` in place of every match `m`. -/
def replaceAll (re : Regex) (sub : Match → Text) (t : Text) : Text :=
  replaceFrom sub t 0 (re.matchesIn t)

/-- The characters that mean something in a pattern. -/
def metaChars : Text := "\\.+*?()|[]\x7b\x7d^$#&-~"

/-- The pattern that matches exactly the given text. -/
def escape (t : Text) : Text := t.flatMap fun c => if c ∈ metaChars then ['\\', c] else [c]

/-- A match covers whole characters from the place where it starts. -/
theorem exists_of_run {machine : Machine} {seen : Visited} {c : Cursor} {t : Thread}
    (h : (machine.run seen c).1 = some t) :
    ∃ taken rest : Text, c.rest = taken ++ rest ∧ t.cursor.pos = c.pos + Text.size taken := by
  obtain ⟨taken, hrest, hpos, _⟩ := Program.reaches_of_explore h
  exact ⟨taken, t.cursor.rest, hrest, hpos⟩

theorem bounds_of_run {machine : Machine} {seen : Visited} {c : Cursor} {t : Thread}
    (h : (machine.run seen c).1 = some t) :
    c.pos ≤ t.cursor.pos ∧ t.cursor.pos ≤ c.pos + Text.size c.rest := by
  obtain ⟨taken, rest, hrest, hpos⟩ := exists_of_run h
  rw [hrest, Text.size_append]
  omega

theorem search_bounds {machine : Machine} {seen : Visited} {pos : Nat} {prev : Option Char}
    {t : Text} {m : Match} (h : search machine seen pos prev t = some m) :
    pos ≤ m.start ∧ m.start ≤ m.stop ∧ m.stop ≤ pos + Text.size t := by
  induction t generalizing seen pos prev with
  | nil =>
    obtain ⟨u, hu, rfl⟩ := Option.map_eq_some_iff.1 h
    exact ⟨Nat.le_refl _, bounds_of_run hu⟩
  | cons c rest ih =>
    rw [search] at h
    split at h
    · rename_i u _ hrun
      obtain rfl := Option.some.inj h
      exact ⟨Nat.le_refl _, bounds_of_run (congrArg Prod.fst hrun)⟩
    · have := ih h
      simp only [Text.size_cons]
      omega

theorem length_piecesFrom (t : Text) (offset : Nat) (ms : List Match) :
    (piecesFrom t offset ms).length = ms.length + 1 := by
  induction ms generalizing offset with
  | nil => rfl
  | cons m ms ih => simp [piecesFrom, ih]

end Regex

end Marginalia
