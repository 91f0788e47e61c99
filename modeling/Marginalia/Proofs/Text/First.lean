import Marginalia.Text.Basic

/-! # The first place of a text

What stands at a place is told by the text before it and the text after it.
-/

namespace Marginalia

namespace Text

/-- What `f` tells of the first place after `before` of which it tells something. -/
def first? {α : Type} (f : Text → Text → Option α) (before : Text) : Text → Option α
  | [] => f before []
  | c :: rest => (f before (c :: rest)).or (first? f (before ++ [c]) rest)

variable {α : Type} {f g : Text → Text → Option α} {a b m : Text} {x : α}

theorem first?_of_some (h : f a b = some x) : first? f a b = some x := by
  cases b with
  | nil => exact h
  | cons c b => rw [first?, h, Option.some_or]

/-- Places of which nothing is told are passed over. -/
theorem first?_append (h : ∀ s t, m = s ++ t → t ≠ [] → f (a ++ s) (t ++ b) = none) :
    first? f a (m ++ b) = first? f (a ++ m) b := by
  induction m generalizing a with
  | nil => rw [List.nil_append, List.append_nil]
  | cons c m ih =>
    have hhere := h [] (c :: m) rfl (List.cons_ne_nil c m)
    rw [List.append_nil] at hhere
    rw [List.cons_append, first?, ← List.cons_append, hhere, Option.none_or, ih,
      List.append_assoc, List.singleton_append]
    intro s t hm ht
    rw [List.append_assoc, List.singleton_append]
    exact h (c :: s) t (by rw [hm, List.cons_append]) ht

theorem first?_eq_none_iff :
    first? f a b = none ↔ ∀ s t, b = s ++ t → f (a ++ s) t = none := by
  induction b generalizing a with
  | nil =>
    constructor
    · intro h s t hst
      obtain ⟨rfl, rfl⟩ := List.append_eq_nil_iff.1 hst.symm
      rwa [List.append_nil]
    · intro h
      simpa [first?] using h [] [] rfl
  | cons c b ih =>
    rw [first?, Option.or_eq_none_iff, ih]
    constructor
    · rintro ⟨hhere, hrest⟩ s t hst
      cases s with
      | nil =>
        obtain rfl : c :: b = t := hst
        rwa [List.append_nil]
      | cons d s =>
        obtain ⟨rfl, rfl⟩ := List.cons_eq_cons.1 hst
        simpa using hrest s t rfl
    · intro h
      refine ⟨by simpa using h [] (c :: b) rfl, fun s t hst => ?_⟩
      rw [List.append_assoc, List.singleton_append]
      exact h (c :: s) t (by rw [hst, List.cons_append])

theorem exists_of_first? (h : first? f a b = some x) :
    ∃ s t, b = s ++ t ∧ f (a ++ s) t = some x ∧
      ∀ u v, s = u ++ v → v ≠ [] → f (a ++ u) (v ++ t) = none := by
  induction b generalizing a with
  | nil =>
    refine ⟨[], [], rfl, by rwa [List.append_nil], ?_⟩
    intro u v huv hv
    exact absurd (List.append_eq_nil_iff.1 huv.symm).2 hv
  | cons c b ih =>
    rw [first?, Option.or_eq_some_iff] at h
    rcases h with h | ⟨hhere, h⟩
    · refine ⟨[], c :: b, rfl, by rwa [List.append_nil], ?_⟩
      intro u v huv hv
      exact absurd (List.append_eq_nil_iff.1 huv.symm).2 hv
    · obtain ⟨s, t, rfl, hfound, hbefore⟩ := ih h
      rw [List.append_assoc, List.singleton_append] at hfound
      refine ⟨c :: s, t, rfl, hfound, ?_⟩
      intro u v huv hv
      cases u with
      | nil =>
        obtain rfl : c :: s = v := huv
        rwa [List.append_nil]
      | cons d u =>
        obtain ⟨rfl, rfl⟩ := List.cons_eq_cons.1 huv
        simpa using hbefore u v rfl hv

theorem first?_congr (h : ∀ s t, b = s ++ t → f (a ++ s) t = g (a ++ s) t) :
    first? f a b = first? g a b := by
  induction b generalizing a with
  | nil => simpa [first?] using h [] [] rfl
  | cons c b ih =>
    have hhere : f a (c :: b) = g a (c :: b) := by simpa using h [] (c :: b) rfl
    rw [first?, first?, hhere, ih]
    intro s t hst
    simpa using h (c :: s) t (by rw [hst, List.cons_append])

end Text

end Marginalia
