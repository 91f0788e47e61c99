import Marginalia.Proofs.Text.Cut
import Marginalia.Section

/-! # The texts of a list of sections

What a reader sees of a list of sections is the code of all of them and the documentation of all of
them. A fold that merges neighbours keeps whatever the merges keep, and the two parts of a section
that is cut anywhere merge into that section again (`merge_splitAt_and_isLeast`).
-/

namespace Marginalia.Section

def codeOf (sections : List Section) : Text := sections.flatMap (·.code)

def docsOf (sections : List Section) : Text := sections.flatMap (·.docs)

@[simp] theorem codeOf_nil : codeOf [] = [] := rfl

@[simp] theorem docsOf_nil : docsOf [] = [] := rfl

@[simp] theorem codeOf_cons (s : Section) (rest : List Section) :
    codeOf (s :: rest) = s.code ++ codeOf rest := rfl

@[simp] theorem docsOf_cons (s : Section) (rest : List Section) :
    docsOf (s :: rest) = s.docs ++ docsOf rest := rfl

@[simp] theorem codeOf_append (xs ys : List Section) :
    codeOf (xs ++ ys) = codeOf xs ++ codeOf ys := List.flatMap_append

@[simp] theorem docsOf_append (xs ys : List Section) :
    docsOf (xs ++ ys) = docsOf xs ++ docsOf ys := List.flatMap_append

theorem codeOf_eq_of_map {xs ys : List Section} (h : xs.map (·.code) = ys.map (·.code)) :
    codeOf xs = codeOf ys := by
  rw [codeOf, codeOf, List.flatMap_def, List.flatMap_def, h]

theorem docsOf_eq_of_map {xs ys : List Section} (h : xs.map (·.docs) = ys.map (·.docs)) :
    docsOf xs = docsOf ys := by
  rw [docsOf, docsOf, List.flatMap_def, List.flatMap_def, h]

/-! ## Folds

`P` holds of every section, or of every one that another follows, as long as merges keep it. -/

section Fold

variable {joins : Section → Section → Bool} {combine : Section → Section → Section}
variable {P : Section → Prop}

theorem pairwise_foldFrom (hP : ∀ s t, P s → P t → P (combine s t)) {s : Section}
    {rest : List Section} (h : (s :: rest).Pairwise fun a _ => P a) :
    (foldFrom joins combine s rest).Pairwise fun a _ => P a := by
  induction rest generalizing s with
  | nil => simp [foldFrom]
  | cons t rest ih =>
    obtain ⟨hs, hrest⟩ := List.pairwise_cons.1 h
    rw [foldFrom]
    split
    · refine ih (List.pairwise_cons.2 ⟨fun u hu => ?_, hrest.of_cons⟩)
      exact hP s t (hs u (List.mem_cons_of_mem _ hu)) ((List.pairwise_cons.1 hrest).1 u hu)
    · exact List.pairwise_cons.2 ⟨fun _ _ => hs t List.mem_cons_self, ih hrest⟩

theorem flatMap_foldFrom {α : Type} {f : Section → List α}
    (hP : ∀ s t, P s → P t → P (combine s t))
    (hf : ∀ s t, P s → joins s t = true → f (combine s t) = f s ++ f t) {s : Section}
    {rest : List Section} (h : (s :: rest).Pairwise fun a _ => P a) :
    (foldFrom joins combine s rest).flatMap f = f s ++ rest.flatMap f := by
  induction rest generalizing s with
  | nil => simp [foldFrom]
  | cons t rest ih =>
    obtain ⟨hs, hrest⟩ := List.pairwise_cons.1 h
    have hst := hs t List.mem_cons_self
    rw [foldFrom]
    split
    · rename_i hjoins
      rw [ih, hf s t hst hjoins, List.append_assoc, List.flatMap_cons]
      refine List.pairwise_cons.2 ⟨fun u hu => ?_, hrest.of_cons⟩
      exact hP s t hst ((List.pairwise_cons.1 hrest).1 u hu)
    · rw [List.flatMap_cons, ih hrest, List.flatMap_cons]

/-- What merges keep as long as `P` holds of the first one. -/
theorem forall_mem_foldFrom_of_pairwise {Q : Section → Prop}
    (hP : ∀ s t, P s → P t → P (combine s t)) (hQ : ∀ s t, P s → Q s → Q t → Q (combine s t))
    {s : Section} {rest : List Section} (h : (s :: rest).Pairwise fun a _ => P a) (hs : Q s)
    (hrest : ∀ t ∈ rest, Q t) : ∀ t ∈ foldFrom joins combine s rest, Q t := by
  induction rest generalizing s with
  | nil =>
    intro t ht
    rwa [List.mem_singleton.1 ht]
  | cons t rest ih =>
    rw [List.forall_mem_cons] at hrest
    obtain ⟨hfirst, hlater⟩ := List.pairwise_cons.1 h
    have hst := hfirst t List.mem_cons_self
    rw [foldFrom]
    split
    · refine ih (List.pairwise_cons.2 ⟨fun u hu => ?_, hlater.of_cons⟩) (hQ s t hst hs hrest.1)
        hrest.2
      exact hP s t hst ((List.pairwise_cons.1 hlater).1 u hu)
    · exact List.forall_mem_cons.2 ⟨hs, ih hlater hrest.1 hrest.2⟩

theorem pairwise_foldAdjacent (hP : ∀ s t, P s → P t → P (combine s t)) {sections : List Section}
    (h : sections.Pairwise fun a _ => P a) :
    (foldAdjacent joins combine sections).Pairwise fun a _ => P a := by
  cases sections with
  | nil => exact h
  | cons s rest => exact pairwise_foldFrom hP h

theorem flatMap_foldAdjacent {α : Type} {f : Section → List α}
    (hP : ∀ s t, P s → P t → P (combine s t))
    (hf : ∀ s t, P s → joins s t = true → f (combine s t) = f s ++ f t) {sections : List Section}
    (h : sections.Pairwise fun a _ => P a) :
    (foldAdjacent joins combine sections).flatMap f = sections.flatMap f := by
  cases sections with
  | nil => rfl
  | cons s rest => exact flatMap_foldFrom hP hf h

theorem forall_mem_foldAdjacent_of_pairwise {Q : Section → Prop}
    (hP : ∀ s t, P s → P t → P (combine s t)) (hQ : ∀ s t, P s → Q s → Q t → Q (combine s t))
    {sections : List Section} (h : sections.Pairwise fun a _ => P a) (hall : ∀ s ∈ sections, Q s) :
    ∀ s ∈ foldAdjacent joins combine sections, Q s := by
  cases sections with
  | nil => exact hall
  | cons s rest =>
    rw [List.forall_mem_cons] at hall
    exact forall_mem_foldFrom_of_pairwise hP hQ h hall.1 hall.2

theorem forall_mem_foldAdjacent (hP : ∀ s t, P s → P t → P (combine s t))
    {sections : List Section} (h : ∀ s ∈ sections, P s) :
    ∀ s ∈ foldAdjacent joins combine sections, P s :=
  forall_mem_foldAdjacent_of_pairwise (P := fun _ => True) (fun _ _ _ _ => trivial)
    (fun s t _ => hP s t) (List.pairwise_of_forall fun _ _ => trivial) h

end Fold

/-! ## Cutting and merging -/

theorem codeOf_splitAt (s : Section) (pos : Nat) :
    (s.splitAt pos).1.code ++ (s.splitAt pos).2.code = s.code :=
  Text.upTo_append_after pos s.code

/-- The second part adds nothing but its code, and its level gives way to that of the first. -/
theorem merge_splitAt (s : Section) (pos : Nat) :
    merge (s.splitAt pos).1 (s.splitAt pos).2 = s := by
  have hdocs : s.docs ++ [] = s.docs := List.append_nil s.docs
  have hcode : (s.splitAt pos).1.code ++ (s.splitAt pos).2.code = s.code := s.codeOf_splitAt pos
  have hscope : none.or s.scope = s.scope := Option.none_or
  have hstripped : (s.stripped || false) = s.stripped := Bool.or_false s.stripped
  have hannotations : s.annotations.extend ∅ = s.annotations := rfl
  rw [merge, hcode]
  simp only [splitAt, hdocs, hscope, hstripped, hannotations]

/-- Cutting and merging are inverse at every offset, past the end of the code or inside a character
as well, and the cut falls on the least boundary from there on. -/
theorem merge_splitAt_and_isLeast (s : Section) (pos : Nat) :
    merge (s.splitAt pos).1 (s.splitAt pos).2 = s ∧
      IsLeast {next | Text.Boundary s.code next ∧ min pos (Text.size s.code) ≤ next}
        (Text.size (s.splitAt pos).1.code) :=
  ⟨merge_splitAt s pos, Text.isLeast_size_upTo s.code pos⟩

example : ((ofCode "é!").splitAt 1).1.code = "é" ∧ ((ofCode "é!").splitAt 1).2.code = "!" := by
  decide

end Marginalia.Section
