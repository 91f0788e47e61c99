import Marginalia.Regex.Program

/-! # Trails

The trails of a thread are all the threads that a program accepts from it, in order of preference,
found without a record of the forks passed. Where they can all be listed, a run finds the first of
them (`explore_of_trails`): a fork behind which nothing was found before has no trails, and a
fork that is still being followed is not met again.
-/

namespace Marginalia.Program

open Pattern (Reaches)

/-- The accepting threads that a thread at a step leads to, if `fuel` steps are enough for each. -/
def trails (prog : Program) : Nat → Nat → Thread → Option (List Thread)
  | 0, _, _ => none
  | fuel + 1, i, t =>
    match prog.act i t with
    | .fail => some []
    | .accept => some [t]
    | .go next u => prog.trails fuel next u
    | .fork a b =>
      match prog.trails fuel a t, prog.trails fuel b t with
      | some us, some vs => some (us ++ vs)
      | _, _ => none

variable {prog : Program} {fuel fuel' i : Nat} {t u : Thread} {ts us : List Thread}

theorem trails_fork {a b : Nat} {vs : List Thread} (hi : prog.act i t = .fork a b)
    (ha : prog.trails fuel a t = some us) (hb : prog.trails fuel b t = some vs) :
    prog.trails (fuel + 1) i t = some (us ++ vs) := by
  simp only [trails, hi, ha, hb]

theorem exists_of_trails_fork {a b : Nat} (hi : prog.act i t = .fork a b)
    (h : prog.trails (fuel + 1) i t = some ts) :
    ∃ us vs, prog.trails fuel a t = some us ∧ prog.trails fuel b t = some vs ∧ ts = us ++ vs := by
  simp only [trails, hi] at h
  split at h
  · rename_i us vs ha hb
    exact ⟨us, vs, ha, hb, (Option.some.inj h).symm⟩
  · cases h

theorem trails_succ (h : prog.trails fuel i t = some ts) :
    prog.trails (fuel + 1) i t = some ts := by
  induction fuel generalizing i t ts with
  | zero => cases h
  | succ fuel ih =>
    cases hi : prog.act i t with
    | fail => simpa only [trails, hi] using h
    | accept => simpa only [trails, hi] using h
    | go next u =>
      rw [trails, hi] at h ⊢
      exact ih h
    | fork a b =>
      obtain ⟨us, vs, ha, hb, rfl⟩ := exists_of_trails_fork hi h
      exact trails_fork hi (ih ha) (ih hb)

theorem trails_mono (h : prog.trails fuel i t = some ts) (hle : fuel ≤ fuel') :
    prog.trails fuel' i t = some ts := by
  induction hle with
  | refl => exact h
  | step _ ih => exact trails_succ ih

theorem trails_unique (h : prog.trails fuel i t = some ts)
    (h' : prog.trails fuel' i t = some us) : ts = us := by
  rcases Nat.le_total fuel fuel' with hle | hle
  · exact Option.some.inj ((trails_mono h hle).symm.trans h')
  · exact Option.some.inj (h.symm.trans (trails_mono h' hle))

/-- Two actions that differ in nothing but what a thread captured. -/
inductive Alike : Action → Action → Prop
  | fail : Alike .fail .fail
  | accept : Alike .accept .accept
  | go {next : Nat} {t u : Thread} (h : t.cursor = u.cursor) : Alike (.go next t) (.go next u)
  | fork {a b : Nat} : Alike (.fork a b) (.fork a b)

theorem act_alike (prog : Program) (i : Nat) (h : t.cursor = u.cursor) :
    Alike (prog.act i t) (prog.act i u) := by
  unfold act
  split
  · exact .fail
  · rename_i step _
    cases step with
    | accept => exact .accept
    | take s next =>
      simp only [Step.act, h]
      split
      · exact .go (congrArg Cursor.next h)
      · exact .fail
    | look l next =>
      simp only [Step.act, h]
      split
      · exact .go h
      · exact .fail
    | fork a b => exact .fork
    | enter next => exact .go h
    | leave group next => exact .go (by simp only [Thread.cursor_leave, h])

/-- How many trails there are depends on the place alone. -/
theorem exists_trails_of_cursor_eq (h : prog.trails fuel i t = some ts)
    (hcursor : t.cursor = u.cursor) :
    ∃ us, prog.trails fuel i u = some us ∧ us.length = ts.length := by
  induction fuel generalizing i t u ts with
  | zero => cases h
  | succ fuel ih =>
    have hact := prog.act_alike i hcursor
    generalize hx : prog.act i t = x at hact
    generalize hy : prog.act i u = y at hact
    cases hact with
    | fail =>
      simp only [trails, hx] at h
      obtain rfl := Option.some.inj h
      exact ⟨[], by simp only [trails, hy], rfl⟩
    | accept =>
      simp only [trails, hx] at h
      obtain rfl := Option.some.inj h
      exact ⟨[u], by simp only [trails, hy], rfl⟩
    | go hcursor =>
      simp only [trails, hx] at h
      simpa only [trails, hy] using ih h hcursor
    | fork =>
      obtain ⟨us, vs, ha, hb, rfl⟩ := exists_of_trails_fork hx h
      obtain ⟨us', ha', hus⟩ := ih ha hcursor
      obtain ⟨vs', hb', hvs⟩ := ih hb hcursor
      exact ⟨us' ++ vs', trails_fork hy ha' hb', by simp only [List.length_append, hus, hvs]⟩

/-- Nothing is accepted from a step on, from the places at an offset. -/
def Dead (prog : Program) (base : Cursor) (key : Nat × Nat) : Prop :=
  ∀ u : Thread, Reaches base u.cursor → u.cursor.pos = key.2 →
    ∃ fuel, prog.trails fuel key.1 u = some []

/-- A step is not followed to the end within `fuel` steps, from the places at an offset. -/
def Deep (prog : Program) (base : Cursor) (fuel : Nat) (key : Nat × Nat) : Prop :=
  ∀ u : Thread, Reaches base u.cursor → u.cursor.pos = key.2 → prog.trails fuel key.1 u = none

theorem Deep.of_succ {base : Cursor} {key : Nat × Nat} (h : prog.Deep base (fuel + 1) key) :
    prog.Deep base fuel key := by
  intro u hu hpos
  cases hts : prog.trails fuel key.1 u with
  | none => rfl
  | some ts => cases (trails_succ hts).symm.trans (h u hu hpos)

theorem deep_of_trails {base : Cursor} (ht : Reaches base t.cursor)
    (h : prog.trails fuel i t = none) : prog.Deep base fuel (i, t.cursor.pos) := by
  intro u hu hpos
  cases hts : prog.trails fuel i u with
  | none => rfl
  | some ts =>
    obtain ⟨_, hus, _⟩ := exists_trails_of_cursor_eq hts (hu.eq_of_pos_eq ht hpos)
    cases h.symm.trans hus

theorem dead_of_trails {base : Cursor} (ht : Reaches base t.cursor)
    (h : prog.trails fuel i t = some []) : prog.Dead base (i, t.cursor.pos) := by
  intro u hu hpos
  obtain ⟨us, hus, hlength⟩ := exists_trails_of_cursor_eq h (ht.eq_of_pos_eq hu hpos.symm)
  exact ⟨fuel, hus.trans (congrArg some (List.eq_nil_of_length_eq_zero hlength))⟩

/-- A run finds the first trail and, where there is none, adds only forks without trails. -/
theorem explore_of_trails {base : Cursor} {seen : Visited} (hfuel : fuel ≤ fuel')
    (ht : Reaches base t.cursor) (h : prog.trails fuel i t = some ts)
    (hseen : ∀ key ∈ seen, prog.Dead base key ∨ prog.Deep base fuel key) :
    (prog.explore fuel' seen i t).1 = ts.head? ∧
      (ts = [] → ∀ key ∈ (prog.explore fuel' seen i t).2, key ∈ seen ∨ prog.Dead base key) := by
  induction fuel generalizing fuel' seen i t ts with
  | zero => cases h
  | succ fuel ih =>
    obtain ⟨fuel', rfl⟩ := Nat.exists_eq_add_of_le' (Nat.le_trans (Nat.succ_pos fuel) hfuel)
    have hfuel : fuel ≤ fuel' := Nat.le_of_succ_le_succ hfuel
    have hseen' : ∀ key ∈ seen, prog.Dead base key ∨ prog.Deep base fuel key :=
      fun key hkey => (hseen key hkey).imp_right .of_succ
    cases hi : prog.act i t with
    | fail =>
      simp only [trails, hi] at h
      obtain rfl := Option.some.inj h
      simp only [explore, hi]
      exact ⟨rfl, fun _ key hkey => .inl hkey⟩
    | accept =>
      simp only [trails, hi] at h
      obtain rfl := Option.some.inj h
      simp only [explore, hi]
      exact ⟨rfl, fun hnil => absurd hnil (List.cons_ne_nil _ _)⟩
    | go next u =>
      simp only [trails, hi] at h
      simp only [explore, hi]
      exact ih hfuel (ht.trans (reaches_of_act hi)) h hseen'
    | fork a b =>
      cases hshort : prog.trails fuel i t with
      | some us =>
        obtain rfl := trails_unique h hshort
        exact ih (Nat.le_succ_of_le hfuel) ht hshort hseen'
      | none =>
        obtain ⟨us, vs, ha, hb, hts⟩ := exists_of_trails_fork hi h
        simp only [explore, hi]
        split
        · rename_i hmem
          rcases hseen _ (Std.HashSet.mem_iff_contains.2 hmem) with hdead | hdeep
          · obtain ⟨_, hnil⟩ := hdead t ht rfl
            obtain rfl := trails_unique h hnil
            exact ⟨rfl, fun _ key hkey => .inl hkey⟩
          · cases h.symm.trans (hdeep t ht rfl)
        · have hinsert : ∀ key ∈ seen.insert (i, t.cursor.pos),
              prog.Dead base key ∨ prog.Deep base fuel key := by
            intro key hkey
            rcases Std.HashSet.mem_insert.1 hkey with heq | hkey
            · exact .inr (eq_of_beq heq ▸ deep_of_trails ht hshort)
            · exact hseen' key hkey
          have hfirst := ih hfuel ht ha hinsert
          split
          · rename_i u seen' hrun
            rw [hrun] at hfirst
            obtain ⟨us, rfl⟩ := List.head?_eq_some_iff.1 hfirst.1.symm
            subst hts
            exact ⟨rfl, fun hnil => absurd hnil (List.cons_ne_nil _ _)⟩
          · rename_i seen' hrun
            rw [hrun] at hfirst
            obtain rfl := List.head?_eq_none_iff.1 hfirst.1.symm
            obtain rfl : ts = vs := hts
            have hadded := hfirst.2 rfl
            have hsecond := ih hfuel ht hb fun key hkey =>
              (hadded key hkey).elim (hinsert key) .inl
            refine ⟨hsecond.1, fun hnil key hkey => ?_⟩
            rcases hsecond.2 hnil key hkey with hkey | hdead
            · rcases hadded key hkey with hkey | hdead
              · rcases Std.HashSet.mem_insert.1 hkey with heq | hkey
                · subst hnil
                  exact .inr (eq_of_beq heq ▸ dead_of_trails ht h)
                · exact .inl hkey
              · exact .inr hdead
            · exact .inr hdead

end Marginalia.Program
