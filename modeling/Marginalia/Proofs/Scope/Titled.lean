import Marginalia.Proofs.Scope.Headed
import Marginalia.Proofs.Text.Leading

/-! # Where labels come from

A section that is labelled by line-local rules has its label from the first line that is not blank.
Splitting keeps this: a cut neither takes that line away nor labels a section by another one
(`titled_cutAtScope`, `titled_cutAtDedent`).
-/

namespace Marginalia.Scope

open ScopeRule (firstIn matchRow)
open Text (LineStart bareLine isBlank lines located size)

/-- The label that the rules give to a line. -/
def labelOf (rules : List ScopeRule) (line : Text) : Option Text :=
  (matchRow rules (bareLine line)).map (·.label)

theorem labelOf_eq_none_iff {rules : List ScopeRule} {line : Text} :
    labelOf rules line = none ↔ matchRow rules (bareLine line) = none :=
  Option.map_eq_none_iff

/-- The same, told by the runs of the patterns. -/
def readLabel (rules : List ScopeRule) (row : Text) : Option Text :=
  rules.findSome? fun rule => (rule.pattern.pattern.matchHere (.origin row)).map fun m =>
    Text.trim ((m.group? row 1).getD (m.text row))

theorem labelOf_eq_readLabel {rules : List ScopeRule}
    (h : ∀ rule ∈ rules, rule.pattern.pattern.LineBound) {t line : Text} (hline : line ∈ lines t) :
    labelOf rules line = readLabel rules (bareLine line) := by
  obtain ⟨_, _, hrow⟩ := Text.exists_bareLine hline
  induction rules with
  | nil => rfl
  | cons rule rules ih =>
    rw [List.forall_mem_cons] at h
    rw [labelOf, ScopeRule.matchRow_cons, ScopeRule.findAt_row h.1 hrow, Option.map_or, ← labelOf,
      ih h.2, readLabel, readLabel, List.findSome?_cons]
    cases rule.pattern.pattern.matchHere (.origin (bareLine line)) <;> rfl

theorem map_labelOf_lines {rules : List ScopeRule}
    (h : ∀ rule ∈ rules, rule.pattern.pattern.LineBound) (t : Text) :
    (lines t).map (labelOf rules) = (lines t).map fun line => readLabel rules (bareLine line) :=
  List.map_congr_left fun _ hline => labelOf_eq_readLabel h hline

/-- A label of the section is that of its first line that is not blank. -/
def Titled (rules : List ScopeRule) (s : Section) : Prop :=
  ∀ label ∈ s.scope, ∃ blanks first later,
    Begins s.code blanks first later ∧ labelOf rules first = some label

theorem titled_of_none {rules : List ScopeRule} {s : Section} (h : s.scope = none) :
    Titled rules s := by
  intro label hlabel
  rw [h] at hlabel
  cases hlabel

section Begins

variable {code : Text} {blanks blanks' later later' : List Text} {first first' : Text}

theorem Begins.unique (h : Begins code blanks first later)
    (h' : Begins code blanks' first' later') :
    blanks = blanks' ∧ first = first' ∧ later = later' := by
  have hfirst : (first :: later).head?.any isBlank = false := h.ink
  have hfirst' : (first' :: later').head?.any isBlank = false := h'.ink
  obtain ⟨hblanks, hrest⟩ := Text.leading_inj h.blank h'.blank hfirst hfirst'
    (h.lines_eq.symm.trans h'.lines_eq)
  exact ⟨hblanks, List.cons.inj hrest⟩

/-- What stands before a line start behind the blank lines begins as the whole does. -/
theorem Begins.upTo {pos : Nat} (h : Begins code blanks first later) (hstart : LineStart code pos)
    (hpos : size blanks.flatten < pos) :
    ∃ later', Begins (Text.upTo pos code) blanks first later' := by
  obtain ⟨before, after, rfl, rfl, hends⟩ := hstart
  have hlines := h.lines_eq
  rw [Text.lines_append hends] at hlines
  rw [Text.upTo_size_append]
  rcases List.append_eq_append_iff.1 hlines with ⟨others, hblanks, _⟩ | ⟨others, hbefore, hrest⟩
  · have hsize : size blanks.flatten = size before + size others.flatten := by
      rw [hblanks, List.flatten_append, Text.flatten_lines, Text.size_append]
    omega
  · cases others with
    | nil =>
      rw [List.append_nil] at hbefore
      rw [← hbefore, Text.flatten_lines] at hpos
      omega
    | cons line others =>
      obtain ⟨rfl, _⟩ := List.cons.inj hrest
      exact ⟨others, hbefore, h.blank, h.ink⟩

end Begins

theorem lt_of_dedentFrom {offset pos : Nat} {blanks later : List Text} {first : Text}
    (hblanks : ∀ line ∈ blanks, isBlank line = true) (hfirst : isBlank first = false)
    (hlater : ∀ line ∈ later, line ≠ [])
    (h : dedentFrom none offset (blanks ++ first :: later) = some pos) :
    offset + size blanks.flatten + size first ≤ pos := by
  induction blanks generalizing offset with
  | nil =>
    rw [List.nil_append, dedentFrom] at h
    simp only [hfirst, Bool.false_eq_true, if_false] at h
    exact (le_of_dedentFrom hlater h).1
  | cons line blanks ih =>
    rw [List.forall_mem_cons] at hblanks
    rw [List.cons_append, dedentFrom] at h
    simp only [hblanks.1, if_true] at h
    have hle := ih hblanks.2 h
    rw [List.flatten_cons, Text.size_append]
    omega

section Cuts

variable {rules : List ScopeRule} {s : Section}

theorem titled_upTo {pos : Nat} (h : Titled rules s) (hstart : LineStart s.code pos)
    (hpos : ∀ blanks first later, Begins s.code blanks first later → size blanks.flatten < pos) :
    Titled rules (s.splitAt pos).1 := by
  intro label hlabel
  obtain ⟨blanks, first, later, hbegins, hfirst⟩ := h label hlabel
  obtain ⟨later', hbegins'⟩ := hbegins.upTo hstart (hpos blanks first later hbegins)
  exact ⟨blanks, first, later', hbegins', hfirst⟩

theorem titled_dedent {pos : Nat} (h : Titled rules s) (hpos : dedent? s.code = some pos) :
    Titled rules (s.splitAt pos).1 := by
  refine titled_upTo h (lineStart_of_dedent? hpos) fun blanks first later hbegins => ?_
  have hne : ∀ line ∈ lines s.code, line ≠ [] := fun _ hline => Text.ne_nil_of_mem_lines hline
  rw [hbegins.lines_eq] at hne
  have hsize : size first ≠ 0 := mt Text.size_eq_zero_iff.1 (hne first (by simp))
  rw [dedent?, hbegins.lines_eq] at hpos
  have hle := lt_of_dedentFrom hbegins.blank hbegins.ink (fun l hl => hne l (by simp [hl])) hpos
  omega

variable (hrules : ∀ rule ∈ rules, rule.LineLocal)

include hrules

theorem titled_cutAt {blanks later : List Text} {first : Text} (h : Titled rules s)
    (hbegins : Begins s.code blanks first later) :
    ∀ p ∈ cutAt s (firstIn (matchRow rules)
      (located (size blanks.flatten + size first) later)), Titled rules p := by
  obtain ⟨passed, _, ⟨hparts, _⟩ |
    ⟨head, tail, hparts, hhead, hsame, line, rest, m, htail, hm, hscope⟩⟩ :=
    hbegins.exists_cut hrules
  · rw [hparts, List.forall_mem_singleton]
    exact h
  · rw [hparts, List.forall_mem_cons, List.forall_mem_singleton]
    constructor
    · intro label hlabel
      rw [hsame] at hlabel
      obtain ⟨_, _, _, hbegins', hfirst⟩ := h label hlabel
      obtain ⟨rfl, rfl, _⟩ := hbegins.unique hbegins'
      exact ⟨_, _, passed, hhead, hfirst⟩
    · intro label hlabel
      refine ⟨[], line, rest, htail, ?_⟩
      rw [labelOf, hm]
      exact hscope.symm.trans hlabel

theorem titled_cutAtScope (h : Titled rules s) : ∀ p ∈ cutAtScope rules s, Titled rules p := by
  cases hidle : rules.isEmpty || !s.hasCode with
  | true =>
    rw [cutAtScope_of_idle hidle]
    intro p hp
    rwa [List.mem_singleton.1 hp]
  | false =>
    have hcode : isBlank s.code = false := by
      simpa [Section.hasCode] using (Bool.or_eq_false_iff.1 hidle).2
    obtain ⟨blanks, first, later, hbegins⟩ := exists_begins hcode
    rw [hbegins.cutAtScope_eq hrules hidle]
    refine titled_cutAt hrules (fun label hlabel => ?_) hbegins
    rcases Option.or_eq_some_iff.1 hlabel with hfirst | ⟨_, hscope⟩
    · exact ⟨blanks, first, later, hbegins, hfirst⟩
    · exact h label hscope

theorem titled_cutAtDedent (h : Titled rules s) : ∀ p ∈ cutAtDedent rules s, Titled rules p := by
  rw [cutAtDedent]
  cases hpos : dedent? s.code with
  | none => exact titled_cutAtScope hrules h
  | some pos =>
    intro p hp
    rcases List.mem_append.1 hp with hp | hp
    · exact titled_cutAtScope hrules (titled_dedent h hpos) p hp
    · rw [List.mem_singleton.1 hp]
      exact titled_of_none rfl

end Cuts

/-- What cuts keep holds of all pieces. -/
theorem forall_mem_pieces_of_cut {cut : Section → List Section} {P : Section → Prop}
    (hcut : ∀ s, P s → ∀ p ∈ cut s, P p) (fuel : Nat) {s : Section} (h : P s) :
    ∀ p ∈ pieces cut fuel s, P p := by
  induction fuel generalizing s with
  | zero =>
    intro p hp
    rwa [List.mem_singleton.1 hp]
  | succ fuel ih =>
    have hparts := hcut s h
    rw [pieces]
    split
    · exact List.forall_mem_nil _
    · rename_i first rest hcuts
      rw [hcuts, List.forall_mem_cons] at hparts
      refine List.forall_mem_cons.2 ⟨hparts.1, fun p hp => ?_⟩
      obtain ⟨part, hpart, hp⟩ := List.mem_flatMap.1 hp
      exact ih (hparts.2 part hpart) p hp

theorem forall_mem_splitAll_of_cut {cut : Section → List Section} {P : Section → Prop}
    (hcut : ∀ s, P s → ∀ p ∈ cut s, P p) {sections : List Section} (h : ∀ s ∈ sections, P s) :
    ∀ p ∈ splitAll cut sections, P p := by
  intro p hp
  obtain ⟨s, hs, hp⟩ := List.mem_flatMap.1 hp
  exact forall_mem_pieces_of_cut hcut _ (h s hs) p hp

end Marginalia.Scope
