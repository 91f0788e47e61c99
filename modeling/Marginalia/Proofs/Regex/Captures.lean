import Marginalia.Proofs.Regex.Place

/-! # Where captures lie

A group is entered and left on the way of the match that it takes part in, so what it captures lies
inside the match, between two boundaries.
-/

namespace Marginalia

open Pattern (Reaches)

/-- Everything a thread remembers lies between the place where it started and where it stands. -/
structure Thread.Within (base : Cursor) (t : Thread) : Prop where
  cursor : Reaches base t.cursor
  entered : ∀ pos ∈ t.entered, ∃ d, Reaches base d ∧ Reaches d t.cursor ∧ d.pos = pos
  captures : ∀ c ∈ t.captures, ∃ d e, Reaches base d ∧ Reaches d e ∧ Reaches e t.cursor ∧
    d.pos = c.start ∧ e.pos = c.stop

namespace Thread

variable {base : Cursor} {t : Thread}

theorem within_start (c : Cursor) : (start c).Within c := by
  refine ⟨.refl c, ?_, ?_⟩
  · intro pos hpos
    cases hpos
  · intro capture hcapture
    cases hcapture

theorem Within.advance (h : t.Within base) : t.advance.Within base := by
  have hnext : Reaches t.cursor t.advance.cursor := .next t.cursor
  refine ⟨h.cursor.trans hnext, ?_, ?_⟩
  · intro pos hpos
    obtain ⟨d, hd, hcursor, rfl⟩ := h.entered pos hpos
    exact ⟨d, hd, hcursor.trans hnext, rfl⟩
  · intro c hc
    obtain ⟨d, e, hd, he, hcursor, hstart, hstop⟩ := h.captures c hc
    exact ⟨d, e, hd, he, hcursor.trans hnext, hstart, hstop⟩

theorem Within.enter (h : t.Within base) : t.enter.Within base := by
  refine ⟨h.cursor, ?_, h.captures⟩
  intro pos hpos
  rcases List.mem_cons.1 hpos with rfl | hpos
  · exact ⟨t.cursor, h.cursor, .refl _, rfl⟩
  · exact h.entered pos hpos

theorem Within.leave (h : t.Within base) (group : Nat) : (t.leave group).Within base := by
  rw [Thread.leave]
  split
  · exact h
  · rename_i pos outer hentered
    have hentered' := h.entered
    rw [hentered, List.forall_mem_cons] at hentered'
    obtain ⟨⟨d, hd, hcursor, hpos⟩, houter⟩ := hentered'
    refine ⟨h.cursor, houter, ?_⟩
    intro c hc
    rcases List.mem_cons.1 hc with rfl | hc
    · exact ⟨d, t.cursor, hd, hcursor, .refl _, hpos, rfl⟩
    · exact h.captures c hc

end Thread

namespace Program

variable {base : Cursor} {prog : Program}

theorem within_of_act {i next : Nat} {t u : Thread} (ht : t.Within base)
    (h : prog.act i t = .go next u) : u.Within base := by
  unfold act at h
  split at h
  · cases h
  · rename_i step _
    cases step with
    | accept => cases h
    | fork a b => cases h
    | take s next =>
      simp only [Step.act] at h
      split at h <;> cases h
      exact ht.advance
    | look l next =>
      simp only [Step.act] at h
      split at h <;> cases h
      exact ht
    | enter next =>
      cases h
      exact ht.enter
    | leave group next =>
      cases h
      exact ht.leave group

theorem within_of_explore {fuel : Nat} {seen : Visited} {i : Nat} {t u : Thread}
    (ht : t.Within base) (h : (prog.explore fuel seen i t).1 = some u) : u.Within base := by
  induction fuel generalizing seen i t with
  | zero => cases h
  | succ fuel ih =>
    rw [explore] at h
    split at h
    · cases h
    · obtain rfl := Option.some.inj h
      exact ht
    · rename_i hact
      exact ih (within_of_act ht hact) h
    · split at h
      · cases h
      · split at h
        · rename_i hu
          obtain rfl := Option.some.inj h
          exact ih ht (congrArg Prod.fst hu)
        · exact ih ht h

end Program

namespace Regex

open Text (Boundary)

theorem bounds_of_range? {re : Regex} {t : Text} {offset n : Nat} {m : Match} {r : Nat × Nat}
    (h : re.findAt t offset = some m) (hr : m.range? n = some r) :
    m.start ≤ r.1 ∧ r.1 ≤ r.2 ∧ r.2 ≤ m.stop ∧ Boundary t r.1 ∧ Boundary t r.2 := by
  rw [Match.range?] at hr
  split at hr
  · obtain rfl := Option.some.inj hr
    exact ⟨Nat.le_refl _, start_le_stop_of_findAt h, Nat.le_refl _, boundary_start_of_findAt h,
      boundary_stop_of_findAt h⟩
  · obtain ⟨c, hc, rfl⟩ := Option.map_eq_some_iff.1 hr
    obtain ⟨base, _, u, _, horigin, hu, rfl⟩ := exists_of_findAt h
    have hwithin : u.Within base := Program.within_of_explore (Thread.within_start base) hu
    obtain ⟨d, e, hd, he, hcursor, hstart, hstop⟩ :=
      hwithin.captures c (List.mem_of_find?_eq_some hc)
    have hle {b c : Cursor} (h : Reaches b c) : b.pos ≤ c.pos := by
      obtain ⟨taken, _, hpos, _⟩ := h
      omega
    simp only [Match.ofThread, ← hstart, ← hstop]
    exact ⟨hle hd, hle he, hle hcursor, Cursor.boundary_of_reaches (horigin.trans hd),
      Cursor.boundary_of_reaches ((horigin.trans hd).trans he)⟩

end Regex

end Marginalia
