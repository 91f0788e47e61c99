import Marginalia.Regex.Trail

/-! # What the program of a pattern does

`Does` states which steps of a program make up a pattern, whatever their numbers are. From such
steps, the trails are the runs of the pattern, each continued (`trails_of_does`). So a machine finds
the preferred run (`run_machine`), if every round of a loop reads something.
-/

namespace Marginalia

namespace Pattern

theorem size_build (p : Pattern) (next : Nat) (prog : Program) :
    (p.build next prog).2.size = prog.size + p.steps := by
  induction p generalizing next prog with
  | empty => rfl
  | set s => simp [build, steps]
  | look l => simp [build, steps]
  | seq p q hp hq =>
    simp only [build, steps, hp, hq]
    omega
  | alt p q hp hq =>
    simp only [build, steps, Array.size_push, hp, hq]
    omega
  | group n p hp =>
    simp only [build, steps, Array.size_push, hp]
    omega
  | star greedy p hp =>
    simp only [build, steps, Array.size_push, hp]
    omega
  | plus greedy p hp =>
    simp only [build, steps, Array.size_push, hp]
    omega

theorem getElem?_push_of_eq_some {α : Type} {xs : Array α} {x y : α} {k : Nat}
    (h : xs[k]? = some x) : (xs.push y)[k]? = some x := by
  rw [Array.getElem?_push, if_neg, h]
  obtain ⟨hk, _⟩ := Array.getElem?_eq_some_iff.1 h
  omega

/-- Building adds steps after those that there are. -/
theorem getElem?_build {p : Pattern} {next k : Nat} {prog : Program} {step : Step}
    (h : prog[k]? = some step) : (p.build next prog).2[k]? = some step := by
  induction p generalizing next prog with
  | empty => exact h
  | set s => exact getElem?_push_of_eq_some h
  | look l => exact getElem?_push_of_eq_some h
  | seq p q hp hq => exact hp (hq h)
  | alt p q hp hq => exact getElem?_push_of_eq_some (hp (hq h))
  | group n p hp => exact getElem?_push_of_eq_some (hp (getElem?_push_of_eq_some h))
  | star greedy p hp => exact getElem?_push_of_eq_some (hp h)
  | plus greedy p hp => exact getElem?_push_of_eq_some (hp h)

/-- Rounds that read something come to an end by themselves. -/
theorem iterate_eq_of_length_le {greedy : Bool} {step : Thread → List Thread}
    (hstep : ∀ t, ∀ u ∈ step t, u.cursor.rest.length < t.cursor.rest.length) {fuel fuel' : Nat}
    {t : Thread} (h : t.cursor.rest.length ≤ fuel) (h' : t.cursor.rest.length ≤ fuel') :
    iterate greedy step fuel t = iterate greedy step fuel' t := by
  have hnil (h : t.cursor.rest.length ≤ 0) : step t = [] :=
    List.eq_nil_iff_forall_not_mem.2 fun u hu =>
      absurd (Nat.lt_of_lt_of_le (hstep t u hu) h) (Nat.not_lt_zero _)
  induction fuel generalizing fuel' t with
  | zero =>
    cases fuel' with
    | zero => rfl
    | succ fuel' => simp [iterate, hnil h]
  | succ fuel ih =>
    cases fuel' with
    | zero => simp [iterate, hnil h']
    | succ fuel' =>
      have hmore : (step t).flatMap (iterate greedy step fuel) =
          (step t).flatMap (iterate greedy step fuel') := by
        rw [List.flatMap_def, List.flatMap_def]
        refine congrArg List.flatten (List.map_congr_left fun u hu => ?_)
        have hu := hstep t u hu
        refine ih (by omega) (by omega) fun hzero => ?_
        exact List.eq_nil_iff_forall_not_mem.2 fun v hv => by
          have := hstep u v hv
          omega
      simp only [iterate, hmore]

theorem iterate_length {greedy : Bool} {step : Thread → List Thread}
    (hstep : ∀ t, ∀ u ∈ step t, u.cursor.rest.length < t.cursor.rest.length) (t : Thread) :
    iterate greedy step t.cursor.rest.length t =
      if greedy then
        ((step t).flatMap fun u => iterate greedy step u.cursor.rest.length u) ++ [t]
      else t :: (step t).flatMap fun u => iterate greedy step u.cursor.rest.length u := by
  have hmore : (step t).flatMap (iterate greedy step t.cursor.rest.length) =
      (step t).flatMap fun u => iterate greedy step u.cursor.rest.length u := by
    rw [List.flatMap_def, List.flatMap_def]
    exact congrArg List.flatten (List.map_congr_left fun u hu =>
      iterate_eq_of_length_le hstep (Nat.le_of_lt (hstep t u hu)) (Nat.le_refl _))
  rw [iterate_eq_of_length_le hstep (Nat.le_refl _) (Nat.le_succ _), iterate, hmore]

end Pattern

namespace Program

/-- From step `i` the program does what a pattern says and goes on with step `next`. -/
def Does (prog : Program) : Pattern → Nat → Nat → Prop
  | .empty, i, next => i = next
  | .set s, i, next => prog[i]? = some (.take s next)
  | .look l, i, next => prog[i]? = some (.look l next)
  | .seq p q, i, next => ∃ middle, prog.Does p i middle ∧ prog.Does q middle next
  | .alt p q, i, next =>
    ∃ a b, prog[i]? = some (.fork a b) ∧ prog.Does p a next ∧ prog.Does q b next
  | .group n p, i, next =>
    ∃ inner last, prog[i]? = some (.enter inner) ∧ prog.Does p inner last ∧
      prog[last]? = some (.leave n next)
  | .star greedy p, i, next =>
    ∃ first, prog.Does p first i ∧ prog[i]? = some (Pattern.fork greedy first next)
  | .plus greedy p, i, next =>
    ∃ last, prog.Does p i last ∧ prog[last]? = some (Pattern.fork greedy i next)

theorem Does.mono {prog prog' : Program} {p : Pattern} {i next : Nat}
    (hsub : ∀ {k : Nat} {step : Step}, prog[k]? = some step → prog'[k]? = some step)
    (h : prog.Does p i next) : prog'.Does p i next := by
  induction p generalizing i next with
  | empty => exact h
  | set s => exact hsub h
  | look l => exact hsub h
  | seq p q hp hq =>
    obtain ⟨middle, h, h'⟩ := h
    exact ⟨middle, hp h, hq h'⟩
  | alt p q hp hq =>
    obtain ⟨a, b, hi, ha, hb⟩ := h
    exact ⟨a, b, hsub hi, hp ha, hq hb⟩
  | group n p hp =>
    obtain ⟨inner, last, hi, h, hlast⟩ := h
    exact ⟨inner, last, hsub hi, hp h, hsub hlast⟩
  | star greedy p hp =>
    obtain ⟨first, h, hi⟩ := h
    exact ⟨first, hp h, hsub hi⟩
  | plus greedy p hp =>
    obtain ⟨last, h, hlast⟩ := h
    exact ⟨last, hp h, hsub hlast⟩

theorem does_build (p : Pattern) (next : Nat) (prog : Program) :
    Does (p.build next prog).2 p (p.build next prog).1 next := by
  induction p generalizing next prog with
  | empty => rfl
  | set s => simp [Does, Pattern.build]
  | look l => simp [Does, Pattern.build]
  | seq p q hp hq =>
    refine ⟨_, hp _ _, ?_⟩
    exact (hq next prog).mono fun h => Pattern.getElem?_build (p := p) h
  | alt p q hp hq =>
    refine ⟨_, _, Array.getElem?_push_size, (hp _ _).mono Pattern.getElem?_push_of_eq_some, ?_⟩
    exact (hq next prog).mono fun h => Pattern.getElem?_push_of_eq_some (Pattern.getElem?_build h)
  | group n p hp =>
    refine ⟨_, _, Array.getElem?_push_size, (hp _ _).mono Pattern.getElem?_push_of_eq_some, ?_⟩
    exact Pattern.getElem?_push_of_eq_some (Pattern.getElem?_build Array.getElem?_push_size)
  | star greedy p hp =>
    refine ⟨_, (hp _ _).mono Pattern.getElem?_push_of_eq_some, ?_⟩
    have hsize := Pattern.size_build p (prog.size + p.steps) prog
    simp only [Pattern.build]
    rw [Array.getElem?_push, if_pos hsize.symm]
  | plus greedy p hp =>
    refine ⟨_, (hp _ _).mono Pattern.getElem?_push_of_eq_some, ?_⟩
    have hsize := Pattern.size_build p (prog.size + p.steps) prog
    simp only [Pattern.build]
    rw [Array.getElem?_push, if_pos hsize.symm]

variable {prog : Program} {fuel i next : Nat} {t : Thread}

theorem act_of_getElem? {step : Step} (h : prog[i]? = some step) (t : Thread) :
    prog.act i t = step.act t := by
  simp only [act, h]

theorem trails_go {u : Thread} {ts : List Thread} (hi : prog.act i t = .go next u)
    (h : prog.trails fuel next u = some ts) : prog.trails (fuel + 1) i t = some ts := by
  simpa only [trails, hi] using h

theorem trails_fail (hi : prog.act i t = .fail) : prog.trails (fuel + 1) i t = some [] := by
  simp only [trails, hi]

/-- The fuel that a place allows: `width` steps for every character that is left. -/
def allowance (width : Nat) (t : Thread) : Nat := width * t.cursor.rest.length

theorem allowance_le (width : Nat) {t u : Thread}
    (h : u.cursor.rest.length < t.cursor.rest.length) :
    allowance width u + width ≤ allowance width t :=
  Nat.mul_le_mul_left width h

/-- The steps of a loop's end: another round, or on to what follows. -/
theorem trails_of_fork {greedy : Bool} {p : Pattern} {width c last : Nat} {k : Thread → List Thread}
    (hp : p.nullable = false)
    (hround : ∀ (t : Thread) (k : Thread → List Thread),
      (∀ u ∈ p.runs t, prog.trails (allowance width u + (max c p.steps + 1)) last u = some (k u)) →
        prog.trails (allowance width t + p.steps) i t = some ((p.runs t).flatMap k))
    (hlast : prog[last]? = some (Pattern.fork greedy i next))
    (hk : ∀ u ∈ Pattern.iterate greedy p.runs t.cursor.rest.length t,
      prog.trails (allowance width u + c) next u = some (k u)) :
    prog.trails (allowance width t + (max c p.steps + 1)) last t =
      some ((Pattern.iterate greedy p.runs t.cursor.rest.length t).flatMap k) := by
  have hstep : ∀ t, ∀ u ∈ p.runs t, u.cursor.rest.length < t.cursor.rest.length :=
    fun _ _ => Pattern.length_lt_of_mem_runs hp
  generalize hlength : t.cursor.rest.length = length
  induction length using Nat.strongRecOn generalizing t with
  | ind length ih =>
    subst hlength
    rw [Pattern.iterate_length hstep] at hk ⊢
    have hmore : prog.trails (allowance width t + max c p.steps) i t =
        some ((p.runs t).flatMap fun u =>
          (Pattern.iterate greedy p.runs u.cursor.rest.length u).flatMap k) := by
      refine trails_mono (hround t _ fun u hu => ?_) (by omega)
      refine ih _ (hstep t u hu) (fun v hv => hk v ?_) rfl
      cases greedy
      · exact List.mem_cons_of_mem _ (List.mem_flatMap.2 ⟨u, hu, hv⟩)
      · exact List.mem_append_left _ (List.mem_flatMap.2 ⟨u, hu, hv⟩)
    have hdone : prog.trails (allowance width t + max c p.steps) next t = some (k t) := by
      refine trails_mono (hk t ?_) (by omega)
      cases greedy <;> simp
    have hact := act_of_getElem? hlast t
    rw [← Nat.add_assoc]
    cases greedy
    · simpa [List.flatMap_assoc] using trails_fork hact hdone hmore
    · simpa [List.flatMap_assoc] using trails_fork hact hmore hdone

/-- The trails from the steps of a pattern are its runs, each continued from the step after them.
Where nothing is read, the steps of the pattern come on top of those that follow. -/
theorem trails_of_does {p : Pattern} {width c : Nat} {k : Thread → List Thread}
    (hloops : p.loopsRead = true) (hc : c + p.steps ≤ width) (hwidth : 2 * p.steps ≤ width)
    (hdoes : prog.Does p i next)
    (hk : ∀ u ∈ p.runs t, prog.trails (allowance width u + c) next u = some (k u)) :
    prog.trails (allowance width t + ((if p.nullable then c else 0) + p.steps)) i t =
      some ((p.runs t).flatMap k) := by
  induction p generalizing c i next t k with
  | empty =>
    obtain rfl : i = next := hdoes
    simpa [Pattern.runs, Pattern.nullable, Pattern.steps] using hk t (List.mem_singleton.2 rfl)
  | set s =>
    have hact := act_of_getElem? hdoes t
    simp only [Step.act] at hact
    simp only [Pattern.runs] at hk ⊢
    split at hact
    · rename_i hs
      simp only [hs, if_true, List.mem_singleton, forall_eq] at hk ⊢
      have hlt : t.advance.cursor.rest.length < t.cursor.rest.length :=
        Pattern.length_lt_of_mem_runs (p := .set s) rfl (by simp [Pattern.runs, hs])
      have := allowance_le width hlt
      simp only [List.flatMap_cons, List.flatMap_nil, List.append_nil]
      exact trails_go hact (trails_mono hk (by simp only [Pattern.steps] at hc; omega))
    · rename_i hs
      simp only [hs]
      exact trails_fail hact
  | look l =>
    have hact := act_of_getElem? hdoes t
    simp only [Step.act] at hact
    simp only [Pattern.runs] at hk ⊢
    split at hact
    · rename_i hl
      simp only [hl, if_true, List.mem_singleton, forall_eq] at hk ⊢
      simp only [List.flatMap_cons, List.flatMap_nil, List.append_nil]
      exact trails_go hact hk
    · rename_i hl
      simp only [hl]
      exact trails_fail hact
  | seq p q hp hq =>
    obtain ⟨middle, hfirst, hsecond⟩ := hdoes
    obtain ⟨hloopsp, hloopsq⟩ := Bool.and_eq_true_iff.1 hloops
    simp only [Pattern.steps] at hc hwidth ⊢
    have hmiddle (u : Thread) (hu : u ∈ p.runs t) :
        prog.trails (allowance width u + ((if q.nullable then c else 0) + q.steps)) middle u =
          some ((q.runs u).flatMap k) :=
      hq hloopsq (by omega) (by omega) hsecond fun v hv =>
        hk v (List.mem_flatMap.2 ⟨u, hu, hv⟩)
    have hafter : (if q.nullable then c else 0) ≤ c := by split <;> omega
    have hstart := hp hloopsp (by omega) (by omega) hfirst hmiddle
    rw [Pattern.runs, List.flatMap_assoc]
    refine trails_mono hstart ?_
    cases hnull : p.nullable
    · simp only [Pattern.nullable, hnull, Bool.false_and, Bool.false_eq_true, if_false]
      omega
    · simp only [Pattern.nullable, hnull, Bool.true_and, if_true]
      omega
  | alt p q hp hq =>
    obtain ⟨a, b, hi, ha, hb⟩ := hdoes
    obtain ⟨hloopsp, hloopsq⟩ := Bool.and_eq_true_iff.1 hloops
    simp only [Pattern.steps] at hc hwidth ⊢
    have hleft := hp hloopsp (by omega) (by omega) ha fun u hu => hk u (List.mem_append_left _ hu)
    have hright := hq hloopsq (by omega) (by omega) hb fun u hu => hk u (List.mem_append_right _ hu)
    have hact := act_of_getElem? hi t
    rw [Pattern.runs, List.flatMap_append, ← Nat.add_assoc, ← Nat.add_assoc]
    refine trails_fork hact (trails_mono hleft ?_) (trails_mono hright ?_)
    · cases hnull : p.nullable
      · simp only [Bool.false_eq_true, if_false]
        omega
      · simp only [Pattern.nullable, hnull, Bool.true_or, if_true]
        omega
    · cases hnull : q.nullable
      · simp only [Bool.false_eq_true, if_false]
        omega
      · simp only [Pattern.nullable, hnull, Bool.or_true, if_true]
        omega
  | group n p hp =>
    obtain ⟨inner, last, hi, hinner, hlast⟩ := hdoes
    simp only [Pattern.steps] at hc hwidth ⊢
    have hleave (u : Thread) (hu : u ∈ p.runs t.enter) :
        prog.trails (allowance width u + (c + 1)) last u = some (k (u.leave n)) := by
      have := hk (u.leave n) (List.mem_map.2 ⟨u, hu, rfl⟩)
      rw [allowance, Thread.cursor_leave] at this
      exact trails_go (act_of_getElem? hlast u) this
    have hbody := hp hloops (by omega) (by omega) hinner hleave
    rw [Pattern.runs, List.flatMap_map]
    refine trails_mono (trails_go (act_of_getElem? hi t) hbody) ?_
    cases hnull : p.nullable
    · simp only [Pattern.nullable, hnull, Bool.false_eq_true, if_false, allowance,
        Thread.cursor_enter]
      omega
    · simp only [Pattern.nullable, hnull, if_true, allowance, Thread.cursor_enter]
      omega
  | star greedy p hp =>
    obtain ⟨first, hround, hi⟩ := hdoes
    obtain ⟨hloops, hread⟩ := Bool.and_eq_true_iff.1 hloops
    have hread : p.nullable = false := by simpa using hread
    simp only [Pattern.steps] at hc hwidth ⊢
    have hrounds (t : Thread) (k : Thread → List Thread)
        (hk : ∀ u ∈ p.runs t,
          prog.trails (allowance width u + (max c p.steps + 1)) i u = some (k u)) :
        prog.trails (allowance width t + p.steps) first t = some ((p.runs t).flatMap k) := by
      simpa [hread] using hp hloops (by omega) (by omega) hround hk
    refine trails_mono (trails_of_fork hread hrounds hi hk) ?_
    simp only [Pattern.nullable, if_true]
    omega
  | plus greedy p hp =>
    obtain ⟨last, hround, hlast⟩ := hdoes
    obtain ⟨hloops, hread⟩ := Bool.and_eq_true_iff.1 hloops
    have hread : p.nullable = false := by simpa using hread
    simp only [Pattern.steps] at hc hwidth ⊢
    have hrounds (t : Thread) (k : Thread → List Thread)
        (hk : ∀ u ∈ p.runs t,
          prog.trails (allowance width u + (max c p.steps + 1)) last u = some (k u)) :
        prog.trails (allowance width t + p.steps) i t = some ((p.runs t).flatMap k) := by
      simpa [hread] using hp hloops (by omega) (by omega) hround hk
    rw [Pattern.runs, List.flatMap_assoc]
    refine trails_mono (hrounds t _ fun u hu => ?_) (by omega)
    exact trails_of_fork hread hrounds hlast fun v hv => hk v (List.mem_flatMap.2 ⟨u, hu, hv⟩)

end Program

/-- If every round of a loop reads something, the machine of a pattern finds its preferred run, and
where there is none, adds only forks that lead nowhere. -/
theorem Pattern.run_machine {p : Pattern} (h : p.loopsRead = true) {base c : Cursor}
    (hc : Reaches base c) {seen : Visited}
    (hseen : ∀ key ∈ seen, p.machine.program.Dead base key) :
    (p.machine.run seen c).1 = (p.runs (.start c)).head? ∧
      (p.runs (.start c) = [] →
        ∀ key ∈ (p.machine.run seen c).2, p.machine.program.Dead base key) := by
  have hsize : p.machine.program.size = p.steps + 1 := by
    simp [machine, size_build, Nat.add_comm]
  have haccept : p.machine.program[0]? = some .accept := getElem?_build rfl
  have hdoes : p.machine.program.Does p p.machine.start 0 := Program.does_build p 0 #[.accept]
  have hk (u : Thread) (_ : u ∈ p.runs (.start c)) :
      p.machine.program.trails (Program.allowance (2 * p.machine.program.size) u + 1) 0 u =
        some [u] := by
    simp only [Program.trails, Program.act_of_getElem? haccept u, Step.act]
  have htrails := Program.trails_of_does h (by omega) (by omega) hdoes hk
  have hfuel : Program.allowance (2 * p.machine.program.size) (.start c) +
      ((if p.nullable then 1 else 0) + p.steps) ≤
        2 * p.machine.program.size * (c.rest.length + 1) := by
    have : (if p.nullable then 1 else 0) ≤ 1 := by split <;> omega
    rw [Nat.mul_add, Program.allowance]
    simp only [Thread.start]
    omega
  have hrun := Program.explore_of_trails hfuel hc htrails fun key hkey => .inl (hseen key hkey)
  rw [List.flatMap_singleton'] at hrun
  exact ⟨hrun.1, fun hnil key hkey => (hrun.2 hnil key hkey).elim (hseen key) id⟩

end Marginalia
