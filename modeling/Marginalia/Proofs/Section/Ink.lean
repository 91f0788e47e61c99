import Marginalia.Pipeline
import Marginalia.Proofs.Scope.Pieces

/-! # Ink

The ink of a text is what is left of it without its blank characters. No pass that comes after the
comments are taken out spends or makes any, in the code or in the documentation, in whatever order
such passes run (`ink_run`).
-/

namespace Marginalia

namespace Text

def ink (t : Text) : Text := t.filter fun c => !isBlankChar c

@[simp] theorem ink_append (s t : Text) : ink (s ++ t) = ink s ++ ink t := List.filter_append ..

theorem ink_flatMap {α : Type} (xs : List α) (f : α → Text) :
    ink (xs.flatMap f) = xs.flatMap fun x => ink (f x) := List.filter_flatMap ..

theorem ink_eq_nil_iff {t : Text} : ink t = [] ↔ isBlank t = true := by
  rw [ink, List.filter_eq_nil_iff, isBlank, List.all_eq_true]
  simp

theorem ink_afterHead? {head t : Text} (h : isBlank head = true) :
    ink ((afterHead? head t).getD t) = ink t := by
  cases hrest : afterHead? head t with
  | none => rfl
  | some rest =>
    rw [afterHead?_eq_some_iff.1 hrest, ink_append, ink_eq_nil_iff.2 h]
    rfl

end Text

open Text (ink ink_flatMap ink_append ink_eq_nil_iff)
open Section (codeOf docsOf)

namespace Layout

theorem isBlank_indent (t : Text) : Text.isBlank (Text.indent t) = true := by
  have hindent := Text.all_isIndentChar_indent t
  rw [List.all_eq_true] at hindent
  rw [Text.isBlank, List.all_eq_true]
  intro c hc
  exact Text.isBlankChar_of_isIndentChar (hindent c hc)

theorem ink_alignText (docs : Text) : ink (alignText docs) = ink docs := by
  have hlines : ink docs = ink ((Text.lines docs).flatMap id) := by
    rw [List.flatMap_id, Text.flatten_lines]
  rw [alignText, ← List.flatMap_def, hlines, ink_flatMap, ink_flatMap]
  refine congrArg List.flatten (List.map_congr_left fun line _ => ?_)
  exact Text.ink_afterHead? (isBlank_indent docs)

theorem map_code_levelsFrom (previous : Nat) (sections : List Section) :
    (levelsFrom previous sections).map (·.code) = sections.map (·.code) := by
  induction sections generalizing previous with
  | nil => rfl
  | cons s rest ih => rw [levelsFrom, List.map_cons, ih, List.map_cons]

theorem map_docs_levelsFrom (previous : Nat) (sections : List Section) :
    (levelsFrom previous sections).map (·.docs) = sections.map (·.docs) := by
  induction sections generalizing previous with
  | nil => rfl
  | cons s rest ih => rw [levelsFrom, List.map_cons, ih, List.map_cons]

end Layout

namespace LinkRule

theorem map_code_annotate (rules : List LinkRule) (head : Text) (sections : List Section) :
    (annotate rules head sections).map (·.code) = sections.map (·.code) := by
  rw [annotate, List.map_map]
  refine List.map_congr_left fun s _ => ?_
  rw [Function.comp_apply]
  split <;> rfl

theorem map_docs_annotate (rules : List LinkRule) (head : Text) (sections : List Section) :
    (annotate rules head sections).map (·.docs) = sections.map (·.docs) := by
  rw [annotate, List.map_map]
  refine List.map_congr_left fun s _ => ?_
  rw [Function.comp_apply]
  split <;> rfl

end LinkRule

namespace Section

/-- The ink of the code and that of the documentation are the same on both sides. -/
structure SameInk (xs ys : List Section) : Prop where
  code : ink (codeOf xs) = ink (codeOf ys)
  docs : ink (docsOf xs) = ink (docsOf ys)

theorem SameInk.refl (xs : List Section) : SameInk xs xs := ⟨rfl, rfl⟩

theorem SameInk.trans {xs ys zs : List Section} (h : SameInk xs ys) (h' : SameInk ys zs) :
    SameInk xs zs :=
  ⟨h.code.trans h'.code, h.docs.trans h'.docs⟩

theorem sameInk_of_map {xs ys : List Section} (hcode : xs.map (·.code) = ys.map (·.code))
    (hdocs : xs.map (·.docs) = ys.map (·.docs)) : SameInk xs ys :=
  ⟨congrArg ink (codeOf_eq_of_map hcode), congrArg ink (docsOf_eq_of_map hdocs)⟩

theorem sameInk_foldAdjacent {joins : Section → Section → Bool}
    {combine : Section → Section → Section}
    (hcode : ∀ s t, joins s t = true → ink (combine s t).code = ink s.code ++ ink t.code)
    (hdocs : ∀ s t, joins s t = true → ink (combine s t).docs = ink s.docs ++ ink t.docs)
    (sections : List Section) : SameInk (foldAdjacent joins combine sections) sections := by
  have hall : sections.Pairwise fun _ _ => True := List.pairwise_of_forall fun _ _ => trivial
  constructor
  · rw [codeOf, codeOf, ink_flatMap, ink_flatMap]
    exact flatMap_foldAdjacent (fun _ _ _ _ => trivial) (fun s t _ => hcode s t) hall
  · rw [docsOf, docsOf, ink_flatMap, ink_flatMap]
    exact flatMap_foldAdjacent (fun _ _ _ _ => trivial) (fun s t _ => hdocs s t) hall

theorem sameInk_keepFilled (sections : List Section) : SameInk (keepFilled sections) sections := by
  induction sections with
  | nil => exact .refl _
  | cons s rest ih =>
    rw [keepFilled] at ih ⊢
    rw [List.filter_cons]
    split
    · exact ⟨by simpa using ih.code, by simpa using ih.docs⟩
    · rename_i hs
      simp only [isFilled, hasCode, hasDocs, Bool.or_eq_true, Bool.not_eq_true', not_or,
        Bool.not_eq_false] at hs
      constructor
      · rw [codeOf_cons, ink_append, ink_eq_nil_iff.2 hs.1]
        exact ih.code
      · rw [docsOf_cons, ink_append, ink_eq_nil_iff.2 hs.2]
        exact ih.docs

theorem sameInk_splitAll {cut : Section → List Section} (hcut : ∀ s, Scope.Divides s (cut s))
    (sections : List Section) : SameInk (Scope.splitAll cut sections) sections := by
  have hpieces (s : Section) : Scope.Divides s (Scope.pieces cut (s.code.length + 1) s) :=
    Scope.divides_pieces hcut _ s
  exact ⟨congrArg ink (Scope.codeOf_flatMap hpieces sections),
    congrArg ink (Scope.docsOf_flatMap hpieces sections)⟩

end Section

open Section (SameInk sameInk_of_map sameInk_foldAdjacent sameInk_keepFilled sameInk_splitAll)

namespace Layout

theorem sameInk_mergeUp (rules : List ScopeRule) (sections : List Section) :
    SameInk (mergeUp rules sections) sections :=
  sameInk_foldAdjacent (fun s t _ => ink_append s.code t.code)
    (fun s t _ => ink_append s.docs t.docs) sections

theorem sameInk_mergeDown (sections : List Section) : SameInk (mergeDown sections) sections :=
  sameInk_foldAdjacent (fun s t _ => ink_append s.code t.code)
    (fun s t _ => ink_append s.docs t.docs) sections

theorem ink_absorbInto (s t : Section) :
    ink (absorbInto s t).code = ink s.code ++ ink t.code := by
  rw [absorbInto]
  split
  · simp
  · have hnewline : ink ['\n'] = [] := rfl
    rw [ink_append, ink_append, hnewline, List.append_nil]

theorem sameInk_absorb (sections : List Section) : SameInk (absorb sections) sections := by
  refine sameInk_foldAdjacent (fun s t _ => ink_absorbInto s t) (fun s t h => ?_) sections
  -- What is absorbed has no documentation to lose.
  simp only [isAbsorbed, Section.hasDocs, Bool.not_not, Bool.and_eq_true] at h
  rw [ink_eq_nil_iff.2 h.1, List.append_nil, absorbInto]

theorem sameInk_alignDocs (sections : List Section) : SameInk (alignDocs sections) sections := by
  constructor
  · refine congrArg ink (Section.codeOf_eq_of_map ?_)
    rw [alignDocs, List.map_map]
    rfl
  · rw [docsOf, docsOf, ink_flatMap, ink_flatMap, alignDocs, List.flatMap_map]
    refine congrArg List.flatten (List.map_congr_left fun s _ => ?_)
    exact ink_alignText s.docs

end Layout

/-- The passes that come after the comments are taken out, and the filter at the end. -/
inductive Rearrangement where
  | setLevels
  | alignDocs
  | splitByIndent
  | splitByKeyword
  | mergeUp
  | mergeDown
  | attachDecorators
  | absorb
  | addLinks
  | keepFilled
  deriving DecidableEq

namespace Rearrangement

def pass : Rearrangement → Pass
  | setLevels => .setLevels
  | alignDocs => .alignDocs
  | splitByIndent => .splitByIndent
  | splitByKeyword => .splitByKeyword
  | mergeUp => .mergeUp
  | mergeDown => .mergeDown
  | attachDecorators => .attachDecorators
  | absorb => .absorb
  | addLinks => .addLinks
  | keepFilled => ⟨"filter_empty", fun _ => Section.keepFilled⟩

theorem sameInk_pass (r : Rearrangement) (g : Grammar) (sections : List Section) :
    SameInk (r.pass.run g sections) sections := by
  cases r with
  | setLevels =>
    exact sameInk_of_map (Layout.map_code_levelsFrom 0 _) (Layout.map_docs_levelsFrom 0 _)
  | alignDocs => exact Layout.sameInk_alignDocs sections
  | splitByIndent => exact sameInk_splitAll (Scope.divides_cutAtDedent g.scopeRules) sections
  | splitByKeyword => exact sameInk_splitAll (Scope.divides_cutAtScope g.scopeRules) sections
  | mergeUp => exact Layout.sameInk_mergeUp g.scopeRules sections
  | mergeDown => exact Layout.sameInk_mergeDown sections
  | attachDecorators =>
    simp only [pass, Pass.attachDecorators]
    split
    · exact .refl sections
    · rename_i marker _
      exact sameInk_foldAdjacent (fun s t _ => ink_append s.code t.code)
        (fun s t _ => ink_append s.docs t.docs) sections
  | absorb => exact Layout.sameInk_absorb sections
  | addLinks =>
    exact sameInk_of_map (LinkRule.map_code_annotate _ _ _) (LinkRule.map_docs_annotate _ _ _)
  | keepFilled => exact sameInk_keepFilled sections

/-- Rearrangements, in any number and order, keep the ink of the code and of the documentation. -/
theorem ink_run (g : Grammar) (steps : List Rearrangement) (sections : List Section) :
    let result := Pipeline.run ⟨steps.map pass⟩ g sections
    ink (codeOf result) = ink (codeOf sections) ∧ ink (docsOf result) = ink (docsOf sections) := by
  suffices h : SameInk (Pipeline.run ⟨steps.map pass⟩ g sections) sections from ⟨h.code, h.docs⟩
  induction steps generalizing sections with
  | nil => exact .refl sections
  | cons step steps ih => exact (ih (step.pass.run g sections)).trans (sameInk_pass step g sections)

end Rearrangement

end Marginalia
