import Marginalia.Proofs.Regex.Break
import Marginalia.Proofs.Regex.Literal

/-! # The texts that a pattern reads

Without assertions the runs of a pattern are told by the texts that it reads (`exists_of_mem_runs`,
`exists_mem_runs`), and without groups a run adds no captures.
-/

namespace Marginalia.Pattern

open Text (size)

/-- The texts between the two ends of a run, whatever stands around them. -/
def Reads : Pattern → Text → Prop
  | empty, x => x = []
  | set s, x => ∃ c, s.contains c = true ∧ x = [c]
  | look _, x => x = []
  | seq p q, x => ∃ y z, x = y ++ z ∧ p.Reads y ∧ q.Reads z
  | alt p q, x => p.Reads x ∨ q.Reads x
  | group _ p, x => p.Reads x
  | star _ p, x => ∃ ys : List Text, x = ys.flatten ∧ ∀ y ∈ ys, p.Reads y
  | plus _ p, x =>
    ∃ (y : Text) (ys : List Text), x = y ++ ys.flatten ∧ p.Reads y ∧ ∀ y ∈ ys, p.Reads y

/-- A run over `x`. -/
structure Over (x : Text) (t u : Thread) : Prop where
  rest : t.cursor.rest = x ++ u.cursor.rest
  pos : u.cursor.pos = t.cursor.pos + size x

theorem Over.refl (t : Thread) : Over [] t t := ⟨rfl, rfl⟩

theorem Over.trans {x y : Text} {t u v : Thread} (h : Over x t u) (h' : Over y u v) :
    Over (x ++ y) t v := by
  refine ⟨?_, ?_⟩
  · rw [h.rest, h'.rest, List.append_assoc]
  · rw [h'.pos, h.pos, Text.size_append, Nat.add_assoc]

theorem over_advance {s : CharSet} {t : Thread} (h : t.cursor.rest.head?.any s.contains = true) :
    ∃ c, s.contains c = true ∧ Over [c] t t.advance := by
  obtain ⟨c, hc, hs⟩ := (Option.any_eq_true _ _).1 h
  obtain ⟨rest, hrest⟩ := List.head?_eq_some_iff.1 hc
  refine ⟨c, hs, ?_, ?_⟩
  · rw [Thread.rest_advance, hrest]
    rfl
  · rw [Thread.cursor_advance, Cursor.next, hrest]
    rfl

/-- What holds of no rounds and of one round more holds of any number of rounds. -/
theorem iterate_induction {R : Thread → Thread → Prop} {greedy : Bool}
    {step : Thread → List Thread} (hrefl : ∀ t, R t t)
    (hround : ∀ t v u, v ∈ step t → R v u → R t u) {fuel : Nat} {t u : Thread}
    (h : u ∈ iterate greedy step fuel t) : R t u := by
  induction fuel generalizing t with
  | zero =>
    obtain rfl := List.mem_singleton.1 h
    exact hrefl u
  | succ fuel ih =>
    have hmore (h : u ∈ (step t).flatMap (iterate greedy step fuel)) : R t u := by
      obtain ⟨v, hv, hu⟩ := List.mem_flatMap.1 h
      exact hround t v u hv (ih hu)
    have hnone (h : u = t) : R t u := h ▸ hrefl u
    cases greedy with
    | true => exact (List.mem_append.1 h).elim hmore fun h => hnone (List.mem_singleton.1 h)
    | false => exact (List.mem_cons.1 h).elim hnone hmore

theorem exists_of_mem_iterate {greedy : Bool} {p : Pattern}
    (hp : ∀ t, ∀ u ∈ p.runs t, ∃ x, p.Reads x ∧ Over x t u) {fuel : Nat} {t u : Thread}
    (h : u ∈ iterate greedy p.runs fuel t) :
    ∃ ys : List Text, (∀ y ∈ ys, p.Reads y) ∧ Over ys.flatten t u := by
  refine iterate_induction (R := fun t u => ∃ ys : List Text, (∀ y ∈ ys, p.Reads y) ∧
    Over ys.flatten t u) (fun t => ⟨[], nofun, .refl t⟩) ?_ h
  rintro t v u hv ⟨ys, hys, hvu⟩
  obtain ⟨y, hy, htv⟩ := hp t v hv
  exact ⟨y :: ys, List.forall_mem_cons.2 ⟨hy, hys⟩, htv.trans hvu⟩

theorem exists_of_mem_runs {p : Pattern} {t u : Thread} (h : u ∈ p.runs t) :
    ∃ x, p.Reads x ∧ Over x t u := by
  induction p generalizing t u with
  | empty =>
    obtain rfl := List.mem_singleton.1 h
    exact ⟨[], rfl, .refl u⟩
  | set s =>
    rw [runs] at h
    split at h
    · rename_i hread
      obtain rfl := List.mem_singleton.1 h
      obtain ⟨c, hc, hover⟩ := over_advance hread
      exact ⟨[c], ⟨c, hc, rfl⟩, hover⟩
    · cases h
  | look l =>
    rw [runs] at h
    split at h
    · obtain rfl := List.mem_singleton.1 h
      exact ⟨[], rfl, .refl u⟩
    · cases h
  | seq p q ihp ihq =>
    obtain ⟨v, hv, hu⟩ := List.mem_flatMap.1 h
    obtain ⟨y, hy, htv⟩ := ihp hv
    obtain ⟨z, hz, hvu⟩ := ihq hu
    exact ⟨y ++ z, ⟨y, z, rfl, hy, hz⟩, htv.trans hvu⟩
  | alt p q ihp ihq =>
    rcases List.mem_append.1 h with h | h
    · exact (ihp h).imp fun _ => And.imp_left .inl
    · exact (ihq h).imp fun _ => And.imp_left .inr
  | group n p ih =>
    obtain ⟨v, hv, rfl⟩ := List.mem_map.1 h
    obtain ⟨x, hx, hover⟩ := ih hv
    refine ⟨x, hx, ?_, ?_⟩
    · rw [Thread.cursor_leave]
      exact hover.rest
    · rw [Thread.cursor_leave]
      exact hover.pos
  | star greedy p ih =>
    obtain ⟨ys, hys, hover⟩ := exists_of_mem_iterate (fun _ _ hu => ih hu) h
    exact ⟨ys.flatten, ⟨ys, rfl, hys⟩, hover⟩
  | plus greedy p ih =>
    obtain ⟨v, hv, hu⟩ := List.mem_flatMap.1 h
    obtain ⟨y, hy, htv⟩ := ih hv
    obtain ⟨ys, hys, hvu⟩ := exists_of_mem_iterate (fun _ _ hu => ih hu) hu
    exact ⟨y ++ ys.flatten, ⟨y, ys, rfl, hy, hys⟩, htv.trans hvu⟩

/-- Whether there are no assertions in the pattern. -/
def lookless : Pattern → Bool
  | look _ => false
  | seq p q => p.lookless && q.lookless
  | alt p q => p.lookless && q.lookless
  | group _ p => p.lookless
  | star _ p => p.lookless
  | plus _ p => p.lookless
  | _ => true

theorem exists_mem_runs_star {greedy : Bool} {p : Pattern} (hread : p.nullable = false)
    (hp : ∀ {x rest : Text} {t : Thread}, p.Reads x → t.cursor.rest = x ++ rest →
      ∃ u ∈ p.runs t, u.cursor.rest = rest) {ys : List Text} (hys : ∀ y ∈ ys, p.Reads y)
    {rest : Text} {t : Thread} (h : t.cursor.rest = ys.flatten ++ rest) :
    ∃ u ∈ (star greedy p).runs t, u.cursor.rest = rest := by
  have hself (t : Thread) : t ∈ (star greedy p).runs t := by
    rw [runs_star hread]
    cases greedy <;> simp
  have hplus {t u : Thread} (hu : u ∈ (plus greedy p).runs t) : u ∈ (star greedy p).runs t := by
    rw [runs_star hread]
    cases greedy <;> simp [hu]
  induction ys generalizing t with
  | nil => exact ⟨t, hself t, h⟩
  | cons y ys ih =>
    rw [List.forall_mem_cons] at hys
    rw [List.flatten_cons, List.append_assoc] at h
    obtain ⟨v, hv, hrest⟩ := hp hys.1 h
    obtain ⟨u, hu, hrest⟩ := ih hys.2 hrest
    exact ⟨u, hplus (List.mem_flatMap.2 ⟨v, hv, hu⟩), hrest⟩

/-- A text that the pattern reads is read wherever it stands. -/
theorem exists_mem_runs {p : Pattern} (hlook : p.lookless = true) (hloops : p.loopsRead = true)
    {x rest : Text} {t : Thread} (hx : p.Reads x) (h : t.cursor.rest = x ++ rest) :
    ∃ u ∈ p.runs t, u.cursor.rest = rest := by
  induction p generalizing x rest t with
  | empty =>
    obtain rfl : x = [] := hx
    exact ⟨t, List.mem_singleton.2 rfl, h⟩
  | set s =>
    obtain ⟨c, hc, rfl⟩ := hx
    refine ⟨t.advance, ?_, ?_⟩
    · rw [runs, h, if_pos (by exact hc)]
      exact List.mem_singleton.2 rfl
    · rw [Thread.rest_advance, h]
      rfl
  | look l => cases hlook
  | seq p q ihp ihq =>
    obtain ⟨hlookp, hlookq⟩ := Bool.and_eq_true_iff.1 hlook
    obtain ⟨hloopsp, hloopsq⟩ := Bool.and_eq_true_iff.1 hloops
    obtain ⟨y, z, rfl, hy, hz⟩ := hx
    rw [List.append_assoc] at h
    obtain ⟨v, hv, hrest⟩ := ihp hlookp hloopsp hy h
    obtain ⟨u, hu, hrest⟩ := ihq hlookq hloopsq hz hrest
    exact ⟨u, List.mem_flatMap.2 ⟨v, hv, hu⟩, hrest⟩
  | alt p q ihp ihq =>
    obtain ⟨hlookp, hlookq⟩ := Bool.and_eq_true_iff.1 hlook
    obtain ⟨hloopsp, hloopsq⟩ := Bool.and_eq_true_iff.1 hloops
    rcases hx with hx | hx
    · obtain ⟨u, hu, hrest⟩ := ihp hlookp hloopsp hx h
      exact ⟨u, List.mem_append_left _ hu, hrest⟩
    · obtain ⟨u, hu, hrest⟩ := ihq hlookq hloopsq hx h
      exact ⟨u, List.mem_append_right _ hu, hrest⟩
  | group n p ih =>
    obtain ⟨u, hu, hrest⟩ := ih (t := t.enter) hlook hloops hx h
    refine ⟨u.leave n, List.mem_map_of_mem hu, ?_⟩
    rwa [Thread.cursor_leave]
  | star greedy p ih =>
    obtain ⟨hloops, hread⟩ := Bool.and_eq_true_iff.1 hloops
    obtain ⟨ys, rfl, hys⟩ := hx
    exact exists_mem_runs_star (by simpa using hread) (fun hx => ih hlook hloops hx) hys h
  | plus greedy p ih =>
    obtain ⟨hloops, hread⟩ := Bool.and_eq_true_iff.1 hloops
    obtain ⟨y, ys, rfl, hy, hys⟩ := hx
    rw [List.append_assoc] at h
    obtain ⟨v, hv, hrest⟩ := ih hlook hloops hy h
    obtain ⟨u, hu, hrest⟩ :=
      exists_mem_runs_star (by simpa using hread) (fun hx => ih hlook hloops hx) hys hrest
    exact ⟨u, List.mem_flatMap.2 ⟨v, hv, hu⟩, hrest⟩

/-- Whether there are no groups in the pattern. -/
def groupless : Pattern → Bool
  | group _ _ => false
  | seq p q => p.groupless && q.groupless
  | alt p q => p.groupless && q.groupless
  | star _ p => p.groupless
  | plus _ p => p.groupless
  | _ => true

/-- Two threads that have captured the same and are inside of the same groups. -/
def Agree (t u : Thread) : Prop := u.captures = t.captures ∧ u.entered = t.entered

theorem Agree.trans {t u v : Thread} (h : Agree t u) (h' : Agree u v) : Agree t v :=
  ⟨h'.1.trans h.1, h'.2.trans h.2⟩

theorem agree_of_mem_iterate {greedy : Bool} {p : Pattern}
    (hp : ∀ t, ∀ u ∈ p.runs t, Agree t u) {fuel : Nat} {t u : Thread}
    (h : u ∈ iterate greedy p.runs fuel t) : Agree t u :=
  iterate_induction (R := Agree) (fun _ => ⟨rfl, rfl⟩) (fun t v _ hv hu => (hp t v hv).trans hu) h

theorem agree_of_mem_runs {p : Pattern} (hp : p.groupless = true) {t u : Thread}
    (h : u ∈ p.runs t) : Agree t u := by
  induction p generalizing t u with
  | empty =>
    obtain rfl := List.mem_singleton.1 h
    exact ⟨rfl, rfl⟩
  | set s =>
    rw [runs] at h
    split at h
    · obtain rfl := List.mem_singleton.1 h
      exact ⟨rfl, rfl⟩
    · cases h
  | look l =>
    rw [runs] at h
    split at h
    · obtain rfl := List.mem_singleton.1 h
      exact ⟨rfl, rfl⟩
    · cases h
  | seq p q ihp ihq =>
    obtain ⟨hp, hq⟩ := Bool.and_eq_true_iff.1 hp
    obtain ⟨v, hv, hu⟩ := List.mem_flatMap.1 h
    exact (ihp hp hv).trans (ihq hq hu)
  | alt p q ihp ihq =>
    obtain ⟨hp, hq⟩ := Bool.and_eq_true_iff.1 hp
    exact (List.mem_append.1 h).elim (ihp hp) (ihq hq)
  | group n p => cases hp
  | star greedy p ih => exact agree_of_mem_iterate (fun _ _ hu => ih hp hu) h
  | plus greedy p ih =>
    obtain ⟨v, hv, hu⟩ := List.mem_flatMap.1 h
    exact (ih hp hv).trans (agree_of_mem_iterate (fun _ _ hu => ih hp hu) hu)

/-- A group without groups inside of it captures what it reads. -/
theorem exists_of_mem_runs_group {n : Nat} {p : Pattern} (hp : p.groupless = true) {t u : Thread}
    (h : u ∈ (group n p).runs t) :
    ∃ x, p.Reads x ∧ Over x t u ∧ u.captures = ⟨n, t.cursor.pos, u.cursor.pos⟩ :: t.captures := by
  obtain ⟨x, hx, hover⟩ := exists_of_mem_runs h
  obtain ⟨v, hv, rfl⟩ := List.mem_map.1 h
  obtain ⟨hcaptures, hentered⟩ := agree_of_mem_runs hp hv
  refine ⟨x, hx, hover, ?_⟩
  rw [Thread.cursor_leave, Thread.leave, hentered, hcaptures]
  rfl

/-! ## Texts of the usual patterns -/

theorem reads_sequence_cons {p : Pattern} {ps : List Pattern} {x : Text} :
    (sequence (p :: ps)).Reads x ↔ ∃ y z, x = y ++ z ∧ p.Reads y ∧ (sequence ps).Reads z := by
  cases ps with
  | nil => simp [sequence, Reads]
  | cons q ps => rfl

theorem reads_sequence_append {ps qs : List Pattern} {x : Text} :
    (sequence (ps ++ qs)).Reads x ↔
      ∃ y z, x = y ++ z ∧ (sequence ps).Reads y ∧ (sequence qs).Reads z := by
  induction ps generalizing x with
  | nil => simp [sequence, Reads]
  | cons p ps ih =>
    rw [List.cons_append, reads_sequence_cons]
    simp only [reads_sequence_cons, ih]
    constructor
    · rintro ⟨y, _, rfl, hy, z, w, rfl, hz, hw⟩
      exact ⟨y ++ z, w, (List.append_assoc y z w).symm, ⟨y, z, rfl, hy, hz⟩, hw⟩
    · rintro ⟨_, w, rfl, ⟨y, z, rfl, hy, hz⟩, hw⟩
      exact ⟨y, z ++ w, List.append_assoc y z w, hy, z, w, rfl, hz, hw⟩

theorem reads_char {c : Char} {x : Text} : (char c).Reads x ↔ x = [c] := by
  simp [char, Reads, CharSet.contains]

theorem reads_literal {text x : Text} : (sequence (text.map char)).Reads x ↔ x = text := by
  induction text generalizing x with
  | nil => rfl
  | cons c text ih =>
    rw [List.map_cons, reads_sequence_cons]
    simp [reads_char, ih]

theorem reads_star_set {greedy : Bool} {s : CharSet} {x : Text} :
    (star greedy (set s)).Reads x ↔ ∀ c ∈ x, s.contains c = true := by
  constructor
  · rintro ⟨ys, rfl, hys⟩ c hc
    obtain ⟨y, hy, hc⟩ := List.mem_flatten.1 hc
    obtain ⟨d, hd, rfl⟩ := hys y hy
    rwa [List.mem_singleton.1 hc]
  · intro h
    refine ⟨x.map fun c => [c], (List.flatMap_singleton' x).symm, ?_⟩
    intro y hy
    obtain ⟨c, hc, rfl⟩ := List.mem_map.1 hy
    exact ⟨c, h c hc, rfl⟩

theorem reads_plus {greedy : Bool} {p : Pattern} {x : Text} :
    (plus greedy p).Reads x ↔ ∃ y z, x = y ++ z ∧ p.Reads y ∧ (star greedy p).Reads z := by
  constructor
  · rintro ⟨y, ys, rfl, hy, hys⟩
    exact ⟨y, ys.flatten, rfl, hy, ys, rfl, hys⟩
  · rintro ⟨y, _, rfl, hy, ys, rfl, hys⟩
    exact ⟨y, ys, rfl, hy, hys⟩

theorem reads_plus_set {greedy : Bool} {s : CharSet} {x : Text} :
    (plus greedy (set s)).Reads x ↔ x ≠ [] ∧ ∀ c ∈ x, s.contains c = true := by
  simp only [reads_plus, reads_star_set]
  constructor
  · rintro ⟨_, z, rfl, ⟨c, hc, rfl⟩, hz⟩
    exact ⟨List.cons_ne_nil c z, List.forall_mem_cons.2 ⟨hc, hz⟩⟩
  · rintro ⟨hne, hx⟩
    obtain ⟨c, z, rfl⟩ := List.exists_cons_of_ne_nil hne
    rw [List.forall_mem_cons] at hx
    exact ⟨[c], z, rfl, ⟨c, hx.1, rfl⟩, hx.2⟩

end Marginalia.Pattern
