import Marginalia.Proofs.Scope.Closed

/-! # Cuts and their parts

Whatever the scope rules are, a cut falls behind the start of a section, so that every part but the
first is shorter than what is cut (`Shrinks`). Each piece of a section is then the first part of a
cut, and what all such parts have in common holds of every piece.
-/

namespace Marginalia

open Text (Boundary size)

namespace ScopeRule

variable {rule : ScopeRule} {rules : List ScopeRule} {t : Text} {offset : Nat} {m : ScopeMatch}

theorem boundary_of_findAt (h : rule.findAt t offset = some m) :
    Boundary t m.start ∧ Boundary t m.stop ∧ offset ≤ m.start := by
  rw [findAt] at h
  split at h
  · cases h
  · rename_i hsize
    obtain ⟨found, hfound, rfl⟩ := Option.map_eq_some_iff.1 h
    exact ⟨Regex.boundary_start_of_findAt hfound, Regex.boundary_stop_of_findAt hfound,
      Regex.le_start_of_findAt hfound (by omega)⟩

theorem boundary_of_findFirst (h : findFirst rules t offset = some m) :
    Boundary t m.start ∧ Boundary t m.stop ∧ offset ≤ m.start := by
  obtain ⟨rule, _, hfound⟩ := exists_of_findFirst h
  exact boundary_of_findAt hfound

end ScopeRule

namespace Scope

theorem le_of_dedentFrom {base : Option Nat} {offset pos : Nat} {ls : List Text}
    (hls : ∀ line ∈ ls, line ≠ []) (h : dedentFrom base offset ls = some pos) :
    offset ≤ pos ∧ (base = none → offset < pos) := by
  induction ls generalizing base offset with
  | nil => cases h
  | cons line rest ih =>
    rw [List.forall_mem_cons] at hls
    have hsize : 0 < size line := Nat.pos_of_ne_zero (mt Text.size_eq_zero_iff.1 hls.1)
    unfold dedentFrom at h
    split at h
    · obtain ⟨hle, _⟩ := ih hls.2 h
      exact ⟨by omega, fun _ => by omega⟩
    · split at h
      · obtain ⟨hle, _⟩ := ih hls.2 h
        exact ⟨by omega, fun _ => by omega⟩
      · split at h
        · obtain rfl := Option.some.inj h
          exact ⟨Nat.le_refl _, fun hnone => by cases hnone⟩
        · obtain ⟨hle, _⟩ := ih hls.2 h
          exact ⟨by omega, fun hnone => by cases hnone⟩

theorem pos_of_dedent? {code : Text} {pos : Nat} (h : dedent? code = some pos) : 0 < pos :=
  (le_of_dedentFrom (fun _ hline => Text.ne_nil_of_mem_lines hline) h).2 rfl

/-- Every part but the first lies behind some code of the section. -/
def Shrinks (s : Section) (parts : List Section) : Prop :=
  ∀ p ∈ parts.tail, ∃ a b : Text, a ≠ [] ∧ s.code = a ++ (p.code ++ b)

theorem upTo_ne_nil {t : Text} {pos : Nat} (h : Boundary t pos) (hpos : 0 < pos) :
    Text.upTo pos t ≠ [] := by
  obtain ⟨a, b, rfl, rfl⟩ := h
  rw [Text.upTo_size_append]
  rintro rfl
  exact Nat.lt_irrefl _ hpos

theorem shrinks_splitAt {s p : Section} {pos : Nat} (h : Boundary s.code pos) (hpos : 0 < pos)
    (hp : p.code = (s.splitAt pos).2.code) :
    ∃ a b : Text, a ≠ [] ∧ s.code = a ++ (p.code ++ b) := by
  refine ⟨Text.upTo pos s.code, [], upTo_ne_nil h hpos, ?_⟩
  rw [hp, List.append_nil]
  exact (Text.upTo_append_after pos s.code).symm

theorem cutAtScope_ne_nil (rules : List ScopeRule) (s : Section) : cutAtScope rules s ≠ [] := by
  obtain ⟨scope, next?, hcut, _⟩ := exists_cutAtScope rules s
  rw [hcut]
  cases next? <;> exact List.cons_ne_nil _ _

/-- A cut at a dedent begins as a cut at a scope of what stands before the dedent. -/
theorem head?_cutAtDedent (rules : List ScopeRule) (s : Section) :
    (cutAtDedent rules s).head? =
      (cutAtScope rules ((dedent? s.code).elim s fun pos => (s.splitAt pos).1)).head? := by
  rw [cutAtDedent]
  cases dedent? s.code with
  | none => rfl
  | some pos =>
    obtain ⟨first, rest, hparts⟩ :=
      List.exists_cons_of_ne_nil (cutAtScope_ne_nil rules (s.splitAt pos).1)
    simp only [hparts, Option.elim_some]
    rfl

theorem shrinks_cutAtScope (rules : List ScopeRule) (s : Section) :
    Shrinks s (cutAtScope rules s) := by
  obtain ⟨scope, next?, hcut, hnext⟩ := exists_cutAtScope rules s
  rw [hcut]
  cases next? with
  | none => exact nofun
  | some next =>
    obtain ⟨offset, hfound, hpos⟩ := hnext next rfl
    obtain ⟨hboundary, _, hle⟩ := ScopeRule.boundary_of_findFirst hfound
    intro p hp
    obtain rfl := List.mem_singleton.1 hp
    exact shrinks_splitAt hboundary (by omega) rfl

theorem shrinks_cutAtDedent (rules : List ScopeRule) (s : Section) :
    Shrinks s (cutAtDedent rules s) := by
  rw [cutAtDedent]
  cases hpos : dedent? s.code with
  | none => exact shrinks_cutAtScope rules s
  | some pos =>
    have hboundary := (lineStart_of_dedent? hpos).boundary
    intro p hp
    rw [List.tail_append_of_ne_nil (cutAtScope_ne_nil rules _)] at hp
    rcases List.mem_append.1 hp with hp | hp
    · obtain ⟨a, b, ha, hcode⟩ := shrinks_cutAtScope rules _ p hp
      refine ⟨a, b ++ (s.splitAt pos).2.code, ha, ?_⟩
      rw [← s.codeOf_splitAt pos, hcode]
      simp
    · obtain rfl := List.mem_singleton.1 hp
      exact shrinks_splitAt hboundary (pos_of_dedent? hpos) rfl

theorem Shrinks.length_lt {s p : Section} {parts : List Section} (h : Shrinks s parts)
    (hp : p ∈ parts.tail) : p.code.length < s.code.length := by
  obtain ⟨a, b, ha, hcode⟩ := h p hp
  have hpos := List.length_pos_iff.2 ha
  rw [hcode, List.length_append, List.length_append]
  omega

/-- Whatever holds of the first part of every cut holds of all pieces: parts get shorter, so that
the fuel lasts until they are first parts themselves. -/
theorem forall_mem_pieces {cut : Section → List Section} {P : Section → Prop}
    (hshrinks : ∀ s, Shrinks s (cut s)) (hfirst : ∀ s, ∀ p ∈ (cut s).head?, P p) {fuel : Nat}
    {s : Section} (hfuel : s.code.length < fuel) : ∀ p ∈ pieces cut fuel s, P p := by
  induction fuel generalizing s with
  | zero => exact absurd hfuel (Nat.not_lt_zero _)
  | succ fuel ih =>
    rw [pieces]
    intro p hp
    cases hparts : cut s with
    | nil =>
      rw [hparts] at hp
      cases hp
    | cons first rest =>
      rw [hparts] at hp
      rcases List.mem_cons.1 hp with rfl | hp
      · exact hfirst s p (by rw [hparts]; rfl)
      · obtain ⟨part, hpart, hp⟩ := List.mem_flatMap.1 hp
        have hlength := (hshrinks s).length_lt (p := part) (by rw [hparts]; exact hpart)
        exact ih (by omega) p hp

theorem forall_mem_splitAll {cut : Section → List Section} {P : Section → Prop}
    (hshrinks : ∀ s, Shrinks s (cut s)) (hfirst : ∀ s, ∀ p ∈ (cut s).head?, P p)
    (sections : List Section) : ∀ p ∈ splitAll cut sections, P p := by
  intro p hp
  obtain ⟨s, _, hp⟩ := List.mem_flatMap.1 hp
  exact forall_mem_pieces hshrinks hfirst (Nat.lt_succ_self _) p hp

end Scope

end Marginalia
