import Marginalia.Proofs.Section.Texts

/-! # Sections of whole lines

In a closed list of sections every section but the last has code that ends a line, so that no line
of code is spread over two sections. Taking out spans that start where lines do keeps a list closed.
-/

namespace Marginalia

namespace Section

open Text (EndsLine Boundary LineStart endsLine_nil)

def Closed (sections : List Section) : Prop := sections.Pairwise fun s _ => EndsLine s.code

/-- The parts that some code falls into are closed, and all of them end a line if the code does. -/
structure Closes (code : Text) (parts : List Section) : Prop where
  closed : Closed parts
  endsLine : EndsLine code → ∀ p ∈ parts, EndsLine p.code

theorem closes_nil (code : Text) : Closes code [] :=
  ⟨.nil, fun _ _ hp => absurd hp List.not_mem_nil⟩

theorem closes_singleton {code : Text} {s : Section} (h : EndsLine code → EndsLine s.code) :
    Closes code [s] :=
  ⟨List.pairwise_singleton _ s, fun hcode _ hp => List.mem_singleton.1 hp ▸ h hcode⟩

theorem Closes.append {code : Text} {xs ys : List Section} (hxs : ∀ p ∈ xs, EndsLine p.code)
    (hys : Closes code ys) : Closes code (xs ++ ys) := by
  constructor
  · refine List.pairwise_append.2 ⟨?_, hys.closed, fun p hp _ _ => hxs p hp⟩
    exact List.Pairwise.imp_of_mem (R := fun _ _ => True) (fun hp _ _ => hxs _ hp)
      (List.pairwise_of_forall fun _ _ => trivial)
  · intro hcode p hp
    exact (List.mem_append.1 hp).elim (hxs p) (hys.endsLine hcode p)

theorem Closes.cons {code : Text} {s : Section} {rest : List Section} (hs : EndsLine s.code)
    (hrest : Closes code rest) : Closes code (s :: rest) := by
  change Closes code ([s] ++ rest)
  exact Closes.append (fun _ hp => List.mem_singleton.1 hp ▸ hs) hrest

theorem Closed.flatMap {f : Section → List Section} {sections : List Section}
    (h : Closed sections) (hf : ∀ s ∈ sections, Closes s.code (f s)) :
    Closed (sections.flatMap f) := by
  refine List.pairwise_flatMap.2 ⟨fun s hs => (hf s hs).closed, ?_⟩
  refine List.Pairwise.imp_of_mem (fun hs _ hend => ?_) h
  exact fun p hp _ _ => (hf _ hs).endsLine hend p hp

/-- Sections without code take no line along that is not blank. -/
theorem inkedLines_keepFilled (sections : List Section) :
    ((keepFilled sections).flatMap fun s => Text.inkedLines s.code) =
      sections.flatMap fun s => Text.inkedLines s.code := by
  induction sections with
  | nil => rfl
  | cons s rest ih =>
    rw [keepFilled] at ih ⊢
    rw [List.filter_cons]
    split
    · rw [List.flatMap_cons, ih, List.flatMap_cons]
    · rename_i hs
      simp only [isFilled, hasCode, Bool.or_eq_true, Bool.not_eq_true', not_or,
        Bool.not_eq_false] at hs
      rw [ih, List.flatMap_cons, Text.inkedLines_eq_nil hs.1, List.nil_append]

theorem Closed.keepFilled {sections : List Section} (h : Closed sections) :
    Closed (keepFilled sections) :=
  List.Pairwise.filter _ h

end Section

namespace Span

open Text (Boundary LineStart EndsLine)

/-- Spans from `pos` on, each of them between two boundaries and none before the end of another. -/
def Orderly (code : Text) (pos : Nat) : List Span → Prop
  | [] => True
  | s :: rest =>
    pos ≤ s.start ∧ Boundary code s.start ∧ s.start ≤ s.stop ∧ Boundary code s.stop ∧
      Orderly code s.stop rest

theorem Orderly.mono {code : Text} {pos pos' : Nat} {spans : List Span}
    (h : Orderly code pos spans) (hle : pos' ≤ pos) : Orderly code pos' spans := by
  cases spans with
  | nil => exact h
  | cons s rest => exact ⟨Nat.le_trans hle h.1, h.2⟩

end Span

namespace Section

open Text (EndsLine Boundary LineStart endsLine_nil)

theorem closes_spanSections {code : Text} {pos level : Nat} {stripped : Bool} {spans : List Span}
    (h : Span.Orderly code pos spans) (hstart : ∀ s ∈ spans, LineStart code s.start) :
    Closes code (spanSections level stripped code spans) := by
  induction spans generalizing pos with
  | nil => exact closes_nil code
  | cons span rest ih =>
    obtain ⟨_, _, _, hstop, hrest⟩ := h
    have ih := ih hrest fun s hs => hstart s (List.mem_cons_of_mem _ hs)
    cases rest with
    | nil =>
      simp only [spanSections, List.append_nil]
      refine Closes.cons endsLine_nil ?_
      split
      · refine closes_singleton fun hcode => ?_
        rw [Text.slice_size hstop]
        exact hcode.after _
      · exact closes_nil code
    | cons next rest =>
      rw [spanSections, List.cons_append]
      refine Closes.cons endsLine_nil (ih.append fun p hp => ?_)
      split at hp
      · obtain rfl := List.mem_singleton.1 hp
        exact (hstart next (by simp)).endsLine_slice hstop hrest.1
      · cases hp

theorem closes_splitBySpans {s : Section} {spans : List Span} {stripped : Bool}
    (h : Span.Orderly s.code 0 spans) (hstart : ∀ span ∈ spans, LineStart s.code span.start) :
    Closes s.code (s.splitBySpans spans stripped) := by
  cases spans with
  | nil => exact closes_singleton id
  | cons span rest =>
    exact Closes.cons (hstart span List.mem_cons_self).endsLine_upTo (closes_spanSections h hstart)

end Section

end Marginalia
