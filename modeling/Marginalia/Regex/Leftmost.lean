import Marginalia.Regex.Built
import Marginalia.Regex.Search

/-! # Leftmost matches

The match that a search should find, said by the runs of a pattern alone: at the first place where
there is a run, the preferred one. A search finds it (`findFrom_eq_leftmost`) if every round of a
loop reads something.
-/

namespace Marginalia

namespace Pattern

/-- The preferred match that starts at a cursor. -/
def matchHere (p : Pattern) (c : Cursor) : Option Match :=
  (p.runs (.start c)).head?.map (.ofThread c.pos)

/-- The preferred match at the first place that has one, from a place given by its parts. -/
def leftmost (p : Pattern) (pos : Nat) (prev : Option Char) : Text → Option Match
  | [] => p.matchHere ⟨pos, prev, []⟩
  | c :: rest =>
    (p.matchHere ⟨pos, prev, c :: rest⟩).or (p.leftmost (pos + c.utf8Size) (some c) rest)

theorem reaches_tail (pos : Nat) (prev : Option Char) (c : Char) (rest : Text) :
    Reaches ⟨pos, prev, c :: rest⟩ ⟨pos + c.utf8Size, some c, rest⟩ :=
  .next ⟨pos, prev, c :: rest⟩

end Pattern

namespace Regex

theorem search_machine {p : Pattern} (h : p.loopsRead = true) {base : Cursor} {seen : Visited}
    {pos : Nat} {prev : Option Char} {t : Text} (hbase : Pattern.Reaches base ⟨pos, prev, t⟩)
    (hseen : ∀ key ∈ seen, p.machine.program.Dead base key) :
    search p.machine seen pos prev t = p.leftmost pos prev t := by
  induction t generalizing seen pos prev with
  | nil => rw [search, (Pattern.run_machine h hbase hseen).1, Pattern.leftmost, Pattern.matchHere]
  | cons c rest ih =>
    obtain ⟨hfound, hnone⟩ := Pattern.run_machine h hbase hseen
    rw [search, Pattern.leftmost, Pattern.matchHere]
    split
    · rename_i u _ hrun
      rw [hrun] at hfound
      rw [← hfound]
      rfl
    · rename_i seen' hrun
      rw [hrun] at hfound hnone
      rw [← hfound]
      exact ih (hbase.trans (Pattern.reaches_tail pos prev c rest))
        (hnone (List.head?_eq_none_iff.1 hfound.symm))

theorem findFrom_eq_leftmost {re : Regex} (h : re.pattern.loopsRead = true) (c : Cursor) :
    re.findFrom c = re.pattern.leftmost c.pos c.prev c.rest :=
  search_machine h (.refl c) fun _ hkey => absurd hkey Std.HashSet.not_mem_empty

end Regex

end Marginalia
