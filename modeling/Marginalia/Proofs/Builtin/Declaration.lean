import Marginalia.Proofs.Regex.Anchored

/-! # Declarations behind decorators

What a declaration opens with, its name, and the decorators that may stand before it are told by
texts alone. A text holds at most one declared name (`name_unique`), and the patterns of the links
read just this name (`reads_preludeParts`).
-/

namespace Marginalia

namespace Text

theorem not_inRanges_of_apart {as bs : List (Nat × Nat)}
    (h : (as.all fun a => bs.all fun b => decide (a.2 < b.1 ∨ b.2 < a.1)) = true) {n : Nat}
    (hn : inRanges as n = true) : inRanges bs n = false := by
  obtain ⟨a, ha, hin⟩ := List.any_eq_true.1 hn
  rw [inRanges, List.any_eq_false]
  intro b hb
  have hapart := of_decide_eq_true (List.all_eq_true.1 (List.all_eq_true.1 h a ha) b hb)
  simp only [Bool.and_eq_true, decide_eq_true_eq] at hin ⊢
  omega

theorem isWordChar_of_isBlankChar {c : Char} (h : isBlankChar c = true) : isWordChar c = false := by
  rw [isBlankChar] at h
  split at h
  · simp only [Bool.or_eq_true, beq_iff_eq, Bool.and_eq_true, decide_eq_true_eq] at h
    rcases h with rfl | ⟨hlo, hhi⟩
    · rfl
    · rw [← Char.ofNat_toNat c]
      obtain hn | hn | hn | hn | hn : c.toNat = 9 ∨ c.toNat = 10 ∨ c.toNat = 11 ∨ c.toNat = 12 ∨
          c.toNat = 13 := by omega
      all_goals rw [hn]; rfl
  · rename_i hascii
    rw [isWordChar, if_neg hascii]
    exact not_inRanges_of_apart (by decide +kernel) h

end Text

namespace Builtin

open Text (isBlankChar isIndentChar isWordChar)

/-! ## What the texts look like -/

/-- Decorators that take one line each, with the indentation behind each of them. -/
inductive Decorators : Text → Prop
  | nil : Decorators []
  | cons {row indentation more : Text} (hrow : '\n' ∉ row)
    (hindent : ∀ c ∈ indentation, isIndentChar c = true) (hmore : Decorators more) :
    Decorators ('@' :: (row ++ '\n' :: (indentation ++ more)))

/-- Blank text and then decorators. -/
def Lead (t : Text) : Prop :=
  ∃ blanks decorators, t = blanks ++ decorators ∧ (∀ c ∈ blanks, isBlankChar c = true) ∧
    Decorators decorators

def OpensFunction (t : Text) : Prop :=
  t = "def" ∨ ∃ gap, t = "async" ++ (gap ++ "def") ∧ gap ≠ [] ∧ ∀ c ∈ gap, isIndentChar c = true

def OpensClass (t : Text) : Prop := t = "class"

/-- The keywords of a declaration. -/
def Opens (t : Text) : Prop := OpensFunction t ∨ OpensClass t

/-- All that stands before the name: keywords of the given kind between a lead and a gap. -/
def Prelude (opens : Text → Prop) (t : Text) : Prop :=
  ∃ lead opener gap, t = lead ++ (opener ++ gap) ∧ Lead lead ∧ opens opener ∧ gap ≠ [] ∧
    ∀ c ∈ gap, isBlankChar c = true

/-- The text starts with a declaration of the name, behind decorators of one line each. -/
def Declares (opens : Text → Prop) (t name : Text) : Prop := Behind (Prelude opens) .word t name

theorem Declares.imp {opens opens' : Text → Prop} (hopens : ∀ x, opens x → opens' x)
    {t name : Text} (h : Declares opens t name) : Declares opens' t name := by
  obtain ⟨before, after, ht, ⟨lead, opener, gap, hbefore, hlead, hopener, hgap⟩, hname⟩ := h
  exact ⟨before, after, ht, ⟨lead, opener, gap, hbefore, hlead, hopens opener hopener, hgap⟩, hname⟩

theorem declares_iff {t name : Text} :
    Declares Opens t name ↔ Declares OpensFunction t name ∨ Declares OpensClass t name := by
  constructor
  · rintro ⟨before, after, ht, ⟨lead, opener, gap, hbefore, hlead, hopener | hopener, hgap⟩, hname⟩
    · exact .inl ⟨before, after, ht, ⟨lead, opener, gap, hbefore, hlead, hopener, hgap⟩, hname⟩
    · exact .inr ⟨before, after, ht, ⟨lead, opener, gap, hbefore, hlead, hopener, hgap⟩, hname⟩
  · rintro (h | h)
    · exact h.imp fun _ => .inl
    · exact h.imp fun _ => .inr

/-! ## There is but one name -/

/-- A text that neither blank text nor decorators can start with. -/
def Bare (t : Text) : Prop := t.head?.any isBlankChar = false ∧ t.head? ≠ some '@'

theorem Bare.decorators_append {decorators t : Text} (h : Decorators decorators) (ht : Bare t) :
    (decorators ++ t).head?.any isBlankChar = false := by
  cases h with
  | nil => exact ht.1
  | cons => rfl

theorem any_isIndentChar_of_isBlankChar {t : Text} (h : t.head?.any isBlankChar = false) :
    t.head?.any isIndentChar = false := by
  cases t with
  | nil => rfl
  | cons c t =>
    rw [List.head?_cons, Option.any_some, Bool.eq_false_iff] at h ⊢
    exact mt Text.isBlankChar_of_isIndentChar h

theorem decorators_inj {decorators decorators' t t' : Text} (h : Decorators decorators)
    (h' : Decorators decorators') (ht : Bare t) (ht' : Bare t')
    (heq : decorators ++ t = decorators' ++ t') : t = t' := by
  have hrowChars {row : Text} (hrow : '\n' ∉ row) : ∀ c ∈ row, (c != '\n') = true := by
    intro c hc
    rw [bne_iff_ne]
    rintro rfl
    exact hrow hc
  induction h generalizing decorators' with
  | nil =>
    cases h' with
    | nil => exact heq
    | cons => exact absurd (by rw [← List.nil_append t, heq]; rfl) ht.2
  | @cons row indentation more hrow hspace hmore ih =>
    cases h' with
    | nil => exact absurd (by rw [← List.nil_append t', ← heq]; rfl) ht'.2
    | @cons row' indentation' more' hrow' hspace' hmore' =>
      simp only [List.cons_append, List.append_assoc, List.cons.injEq, true_and] at heq
      obtain ⟨_, hrest⟩ := Text.leading_inj (hrowChars hrow) (hrowChars hrow') rfl rfl heq
      obtain ⟨_, hrest⟩ := List.cons.inj hrest
      obtain ⟨_, hrest⟩ := Text.leading_inj hspace hspace'
        (any_isIndentChar_of_isBlankChar (ht.decorators_append hmore))
        (any_isIndentChar_of_isBlankChar (ht'.decorators_append hmore')) hrest
      exact ih hmore' hrest

/-- The keywords tell where the gap behind them ends. -/
theorem opens_inj {opener opener' gap gap' t t' : Text} (h : Opens opener) (h' : Opens opener')
    (hgap : ∀ c ∈ gap, isBlankChar c = true) (hgap' : ∀ c ∈ gap', isBlankChar c = true)
    (ht : t.head?.any isBlankChar = false) (ht' : t'.head?.any isBlankChar = false)
    (heq : opener ++ (gap ++ t) = opener' ++ (gap' ++ t')) : t = t' := by
  have hrest (hrest : gap ++ t = gap' ++ t') : t = t' :=
    (Text.leading_inj hgap hgap' ht ht' hrest).2
  -- Unlike keywords differ in their first characters.
  rcases h with (rfl | ⟨space, rfl, _, hspace⟩) | rfl
  · rcases h' with (rfl | ⟨_, rfl, _⟩) | rfl
    · exact hrest (List.append_cancel_left heq)
    · exact absurd (List.head_eq_of_cons_eq heq) (by decide)
    · exact absurd (List.head_eq_of_cons_eq heq) (by decide)
  · rcases h' with (rfl | ⟨space', rfl, _, hspace'⟩) | rfl
    · exact absurd (List.head_eq_of_cons_eq heq) (by decide)
    · simp only [List.append_assoc, List.append_cancel_left_eq] at heq
      obtain ⟨_, hdef⟩ := Text.leading_inj hspace hspace' rfl rfl heq
      exact hrest (List.append_cancel_left hdef)
    · exact absurd (List.head_eq_of_cons_eq heq) (by decide)
  · rcases h' with (rfl | ⟨_, rfl, _⟩) | rfl
    · exact absurd (List.head_eq_of_cons_eq heq) (by decide)
    · exact absurd (List.head_eq_of_cons_eq heq) (by decide)
    · exact hrest (List.append_cancel_left heq)

theorem bare_of_opens {opener : Text} (h : Opens opener) (t : Text) : Bare (opener ++ t) := by
  rcases h with (rfl | ⟨_, rfl, _⟩) | rfl <;> exact ⟨rfl, by simp⟩

theorem name_unique {t a b : Text} (ha : Declares Opens t a) (hb : Declares Opens t b) : a = b := by
  have hname {name after : Text} (hne : name ≠ []) (hword : ∀ c ∈ name, isWordChar c = true) :
      (name ++ after).head?.any isBlankChar = false := by
    obtain ⟨c, name, rfl⟩ := List.exists_cons_of_ne_nil hne
    rw [List.cons_append, List.head?_cons, Option.any_some, Bool.eq_false_iff]
    intro hc
    cases (Text.isWordChar_of_isBlankChar hc).symm.trans (hword c List.mem_cons_self)
  obtain ⟨_, after, rfl, ⟨_, opener, gap, rfl, ⟨blanks, decos, rfl, hblanks, hdecos⟩, hopener,
    _, hgap⟩, hne, hword, hafter⟩ := ha
  obtain ⟨_, after', heq, ⟨_, opener', gap', rfl, ⟨blanks', decos', rfl, hblanks', hdecos'⟩,
    hopener', _, hgap'⟩, hne', hword', hafter'⟩ := hb
  simp only [List.append_assoc] at heq
  have hbare := bare_of_opens hopener (gap ++ (a ++ after))
  have hbare' := bare_of_opens hopener' (gap' ++ (b ++ after'))
  obtain ⟨_, heq⟩ := Text.leading_inj hblanks hblanks' (hbare.decorators_append hdecos)
    (hbare'.decorators_append hdecos') heq
  have heq := decorators_inj hdecos hdecos' hbare hbare' heq
  have heq := opens_inj hopener hopener' hgap hgap' (hname hne hword) (hname hne' hword') heq
  exact (Text.leading_inj hword hword' hafter hafter' heq).1

/-! ## What the patterns of the links read -/

section Patterns

open Pattern (sequence)

def decoratorLine : Pattern :=
  sequence [.indent, .char '@', .star true (.set .notNewline), .char '\n']

def leadParts : List Pattern := [.star true (.set .blank), .star true decoratorLine, .indent]

def functionParts : List Pattern :=
  .optional (sequence ("async".toList.map .char ++ [.plus true (.set .indent)])) ::
    "def".toList.map .char

def classParts : List Pattern := "class".toList.map .char

/-- What stands before the group of the name. -/
def preludeParts (opener : List Pattern) : List Pattern :=
  leadParts ++ (opener ++ [.plus true (.set .blank)])

theorem reads_indent {x : Text} : Pattern.indent.Reads x ↔ ∀ c ∈ x, isIndentChar c = true :=
  Pattern.reads_star_set

theorem reads_decoratorLine {x : Text} :
    decoratorLine.Reads x ↔ ∃ indentation row, x = indentation ++ '@' :: (row ++ ['\n']) ∧
      (∀ c ∈ indentation, isIndentChar c = true) ∧ '\n' ∉ row := by
  have hrow {row : Text} : (∀ c ∈ row, CharSet.notNewline.contains c = true) ↔ '\n' ∉ row := by
    simp only [CharSet.contains_notNewline, bne_iff_ne]
    exact List.forall_mem_ne'
  have hparts : decoratorLine.Reads x ↔ ∃ indentation row,
      x = indentation ++ ('@' :: (row ++ ['\n'])) ∧
        (∀ c ∈ indentation, isIndentChar c = true) ∧
          ∀ c ∈ row, CharSet.notNewline.contains c = true := by
    constructor
    · rintro ⟨indentation, _, rfl, hindent, _, _, rfl, hmark, row, _, rfl, hrow, hend⟩
      obtain rfl := Pattern.reads_char.1 hmark
      obtain rfl := Pattern.reads_char.1 hend
      exact ⟨indentation, row, rfl, reads_indent.1 hindent, Pattern.reads_star_set.1 hrow⟩
    · rintro ⟨indentation, row, rfl, hindent, hrow⟩
      exact ⟨indentation, _, rfl, reads_indent.2 hindent, ['@'], _, rfl, Pattern.reads_char.2 rfl,
        row, ['\n'], rfl, Pattern.reads_star_set.2 hrow, Pattern.reads_char.2 rfl⟩
  simp only [hparts, hrow]

/-- The patterns have the indentation before a decorator, the texts have it behind the line
before. -/
theorem Decorators.exists_lines {decorators indentation : Text} (h : Decorators decorators)
    (hindent : ∀ c ∈ indentation, isIndentChar c = true) :
    ∃ (ys : List Text) (last : Text), indentation ++ decorators = ys.flatten ++ last ∧
      (∀ y ∈ ys, decoratorLine.Reads y) ∧ ∀ c ∈ last, isIndentChar c = true := by
  induction h generalizing indentation with
  | nil => exact ⟨[], indentation, by simp, List.forall_mem_nil _, hindent⟩
  | @cons row inner more hrow hinner hmore ih =>
    obtain ⟨ys, last, hys, hlines, hlast⟩ := ih hinner
    refine ⟨(indentation ++ '@' :: (row ++ ['\n'])) :: ys, last, ?_, ?_, hlast⟩
    · rw [hys]
      simp
    · exact List.forall_mem_cons.2
        ⟨reads_decoratorLine.2 ⟨indentation, row, rfl, hindent, hrow⟩, hlines⟩

theorem exists_decorators {ys : List Text} {last : Text} (hlines : ∀ y ∈ ys, decoratorLine.Reads y)
    (hlast : ∀ c ∈ last, isIndentChar c = true) :
    ∃ indentation decorators, ys.flatten ++ last = indentation ++ decorators ∧
      (∀ c ∈ indentation, isIndentChar c = true) ∧ Decorators decorators := by
  induction ys with
  | nil => exact ⟨last, [], by simp, hlast, .nil⟩
  | cons y ys ih =>
    rw [List.forall_mem_cons] at hlines
    obtain ⟨indentation, row, rfl, hindent, hrow⟩ := reads_decoratorLine.1 hlines.1
    obtain ⟨inner, decorators, hmore, hinner, hdecorators⟩ := ih hlines.2
    refine ⟨indentation, _, ?_, hindent, .cons hrow hinner hdecorators⟩
    rw [List.flatten_cons, List.append_assoc, hmore]
    simp

theorem reads_leadParts {x : Text} : (sequence leadParts).Reads x ↔ Lead x := by
  constructor
  · rintro ⟨blanks, _, rfl, hblanks, _, last, rfl, ⟨ys, rfl, hlines⟩, hlast⟩
    obtain ⟨indentation, decorators, hmore, hindent, hdecorators⟩ :=
      exists_decorators hlines (reads_indent.1 hlast)
    refine ⟨blanks ++ indentation, decorators, ?_, ?_, hdecorators⟩
    · rw [hmore, List.append_assoc]
    · intro c hc
      rcases List.mem_append.1 hc with hc | hc
      · exact Pattern.reads_star_set.1 hblanks c hc
      · exact Text.isBlankChar_of_isIndentChar (hindent c hc)
  · rintro ⟨blanks, decorators, rfl, hblanks, hdecorators⟩
    obtain ⟨ys, last, hmore, hlines, hlast⟩ :=
      hdecorators.exists_lines (List.forall_mem_nil _)
    exact ⟨blanks, _, congrArg _ hmore, Pattern.reads_star_set.2 hblanks, ys.flatten, last, rfl,
      ⟨ys, rfl, hlines⟩, reads_indent.2 hlast⟩

theorem reads_functionParts {x : Text} : (sequence functionParts).Reads x ↔ OpensFunction x := by
  have hasync (y : Text) : (Pattern.optional (sequence ("async".toList.map .char ++
      [.plus true (.set .indent)]))).Reads y ↔
        (∃ gap, y = "async" ++ gap ∧ gap ≠ [] ∧ ∀ c ∈ gap, isIndentChar c = true) ∨ y = [] := by
    refine or_congr_left ?_
    simp only [Pattern.reads_sequence_append, Pattern.reads_literal]
    constructor
    · rintro ⟨_, gap, rfl, rfl, hgap⟩
      exact ⟨gap, rfl, Pattern.reads_plus_set.1 hgap⟩
    · rintro ⟨gap, rfl, hgap⟩
      exact ⟨_, gap, rfl, rfl, Pattern.reads_plus_set.2 hgap⟩
  rw [functionParts, Pattern.reads_sequence_cons]
  simp only [Pattern.reads_literal, hasync]
  constructor
  · rintro ⟨_, _, rfl, ⟨gap, rfl, hgap⟩ | rfl, rfl⟩
    · exact .inr ⟨gap, List.append_assoc _ _ _, hgap⟩
    · exact .inl rfl
  · rintro (rfl | ⟨gap, rfl, hgap⟩)
    · exact ⟨[], _, rfl, .inr rfl, rfl⟩
    · exact ⟨_, _, (List.append_assoc _ _ _).symm, .inl ⟨gap, rfl, hgap⟩, rfl⟩

theorem reads_classParts {x : Text} : (sequence classParts).Reads x ↔ OpensClass x :=
  Pattern.reads_literal

theorem reads_preludeParts {ps : List Pattern} {opens : Text → Prop}
    (h : ∀ x, (sequence ps).Reads x ↔ opens x) {x : Text} :
    (sequence (preludeParts ps)).Reads x ↔ Prelude opens x := by
  simp only [preludeParts, Pattern.reads_sequence_append, reads_leadParts, h]
  constructor
  · rintro ⟨lead, _, rfl, hlead, opener, gap, rfl, hopener, hgap⟩
    exact ⟨lead, opener, gap, rfl, hlead, hopener, Pattern.reads_plus_set.1 hgap⟩
  · rintro ⟨lead, opener, gap, rfl, hlead, hopener, hgap⟩
    exact ⟨lead, _, rfl, hlead, opener, gap, rfl, hopener, Pattern.reads_plus_set.2 hgap⟩

end Patterns

end Builtin

end Marginalia
