import Marginalia.Proofs.Regex.Break
import Marginalia.Proofs.Scope.Cuts
import Marginalia.Proofs.Section.Break

/-! # Scopes with line breaks of two characters

Scopes whose patterns read no line break are found in the same places of both forms of a text, with
the same labels. So sections are cut alike, however often.
-/

namespace Marginalia

open Text (Boundary shift size lines)

/-- The same match once newlines are written as two characters. Labels have none. -/
def ScopeMatch.crlf (t : Text) (m : ScopeMatch) : ScopeMatch :=
  ⟨shift t m.start, shift t m.stop, m.label⟩

namespace Text

/-- Searches from the two offsets see the same rest of the two forms of a text. -/
structure Aligned (t : Text) (offset offset' : Nat) : Prop where
  cursor : Cursor.ofOffset (crlf t) offset' = (Cursor.ofOffset t offset).crlf t
  size_le : size (crlf t) ≤ offset' ↔ size t ≤ offset

theorem Boundary.aligned {t : Text} {pos : Nat} (h : Boundary t pos) :
    Aligned t pos (Text.shift t pos) := by
  refine ⟨Cursor.ofOffset_crlf h, ?_⟩
  rw [← shift_size, shift_le_iff (boundary_size t) h]

theorem ofOffset_inside (a : Text) (c : Char) (b : Text) :
    Cursor.ofOffset (a ++ c :: b) (size a + 1) = ⟨size (a ++ [c]), some c, b⟩ := by
  suffices h : ∀ (pos : Nat) (prev : Option Char),
      Cursor.skip (size a + 1) pos prev (a ++ c :: b) = ⟨pos + size (a ++ [c]), some c, b⟩ by
    simpa [Cursor.ofOffset] using h 0 none
  induction a with
  | nil =>
    intro pos prev
    have hpos := Char.utf8Size_pos c
    have hdone : 0 + 1 - c.utf8Size = 0 := by omega
    rw [List.nil_append, Cursor.skip, size_nil, if_neg (by omega), hdone]
    cases b <;> simp [Cursor.skip]
  | cons d a ih =>
    intro pos prev
    have hpos := Char.utf8Size_pos d
    have hleft : size (d :: a) + 1 - d.utf8Size = size a + 1 := by
      rw [size_cons]
      omega
    rw [List.cons_append, Cursor.skip, if_neg (by omega), hleft, ih]
    simp [Nat.add_assoc]

/-- One byte into a character that is no newline. -/
theorem aligned_inside {t a b : Text} {c : Char} (ht : t = a ++ c :: b) (hc : c ≠ '\n') :
    Aligned t (size a + 1) (shift t (size a) + 1) := by
  have hshift : shift t (size a) = size (crlf a) := by rw [ht, shift_size_append]
  have hcrlf : crlf t = crlf a ++ c :: crlf b := by rw [ht, crlf_append, crlf_cons hc]
  have hnext : shift t (size (a ++ [c])) = size (crlf a ++ [c]) := by
    have ht' : t = (a ++ [c]) ++ b := by rw [ht, List.append_assoc]; rfl
    rw [ht', shift_size_append, crlf_append, crlf_cons hc, crlf_nil]
  constructor
  · rw [hshift, hcrlf, ofOffset_inside, ht, ofOffset_inside, ← ht, Cursor.crlf, hnext]
  · have hpos := Char.utf8Size_pos c
    have hempty : size (crlf b) = 0 ↔ size b = 0 := by
      have hlength := length_le_crlf b
      rw [size_eq_zero_iff, size_eq_zero_iff]
      constructor
      · intro hb
        rw [hb] at hlength
        exact List.eq_nil_of_length_eq_zero (Nat.le_zero.1 hlength)
      · rintro rfl
        rfl
    rw [hshift, hcrlf, ht]
    simp only [size_append, size_cons]
    omega

/-- The later one of a boundary and the place one byte into a character. -/
theorem aligned_max {t a b : Text} {c : Char} (ht : t = a ++ c :: b) (hc : c ≠ '\n') {pos : Nat}
    (hpos : Boundary t pos) :
    Aligned t (max pos (size a + 1)) (max (shift t pos) (shift t (size a) + 1)) := by
  have hiff : shift t (size a) < shift t pos ↔ size a < pos := shift_lt_iff ⟨a, _, ht, rfl⟩ hpos
  by_cases hlt : size a < pos
  · have hlt' := hiff.2 hlt
    rw [Nat.max_eq_left hlt, Nat.max_eq_left hlt']
    exact hpos.aligned
  · have hge := mt hiff.1 hlt
    rw [Nat.max_eq_right (by omega), Nat.max_eq_right (by omega)]
    exact aligned_inside ht hc

end Text

namespace ScopeRule

/-- The pattern reads no line break. -/
@[mk_iff]
structure Unbroken (rule : ScopeRule) : Prop where
  pattern : rule.pattern.pattern.Unbroken
  avoids : rule.pattern.pattern.avoids '\n' = true

instance (rule : ScopeRule) : Decidable rule.Unbroken := decidable_of_iff' _ (unbroken_iff rule)

variable {rule : ScopeRule} {rules : List ScopeRule} {t : Text} {offset offset' : Nat}

theorem label_crlf (hrule : rule.Unbroken) {m : Match}
    (h : rule.pattern.findAt t offset = some m) :
    Text.trim (((m.crlf t).group? (Text.crlf t) 1).getD ((m.crlf t).text (Text.crlf t))) =
      Text.trim ((m.group? t 1).getD (m.text t)) := by
  have hloops := hrule.pattern.loopsRead
  rw [Regex.group?_crlf h, Regex.text_crlf h]
  cases hg : m.group? t 1 with
  | none =>
    simp only [Option.map_none, Option.getD_none]
    rw [Text.crlf_eq_self (Regex.not_mem_text hloops hrule.avoids h)]
  | some g =>
    have hgroups := Pattern.groupsAvoid_of_avoids hrule.avoids
    simp only [Option.map_some, Option.getD_some]
    rw [Text.crlf_eq_self (Regex.not_mem_group hloops hgroups h (by decide) hg)]

theorem findAt_crlf (hrule : rule.Unbroken) (h : Text.Aligned t offset offset') :
    rule.findAt (Text.crlf t) offset' = (rule.findAt t offset).map (.crlf t) := by
  rw [findAt, findAt, Regex.findAt, h.cursor,
    Regex.findFrom_crlf hrule.pattern (Cursor.reaches_ofOffset t offset), ← Regex.findAt]
  simp only [h.size_le]
  split
  · rfl
  · cases hm : rule.pattern.findAt t offset with
    | none => rfl
    | some m =>
      simp only [Option.map_some, label_crlf hrule hm]
      rfl

theorem earlier_crlf {best found : Option ScopeMatch} (hbest : ∀ m ∈ best, Boundary t m.start)
    (hfound : ∀ m ∈ found, Boundary t m.start) :
    earlier (best.map (.crlf t)) (found.map (.crlf t)) = (earlier best found).map (.crlf t) := by
  cases best with
  | none => rfl
  | some a =>
    cases found with
    | none => rfl
    | some b =>
      simp only [Option.map_some, earlier, ScopeMatch.crlf,
        Text.shift_lt_iff (hfound b rfl) (hbest a rfl)]
      split <;> rfl

theorem findFirst_crlf (hrules : ∀ rule ∈ rules, rule.Unbroken)
    (h : Text.Aligned t offset offset') :
    findFirst rules (Text.crlf t) offset' = (findFirst rules t offset).map (.crlf t) := by
  suffices hfold : ∀ best : Option ScopeMatch, (∀ m ∈ best, Boundary t m.start) →
      rules.foldl (fun best rule => earlier best (rule.findAt (Text.crlf t) offset'))
        (best.map (.crlf t)) =
      (rules.foldl (fun best rule => earlier best (rule.findAt t offset)) best).map (.crlf t) from
    hfold none fun _ hm => by cases hm
  induction rules with
  | nil =>
    intro best _
    rfl
  | cons rule rules ih =>
    rw [List.forall_mem_cons] at hrules
    intro best hbest
    have hfound : ∀ m ∈ rule.findAt t offset, Boundary t m.start :=
      fun _ hm => (boundary_of_findAt hm).1
    rw [List.foldl_cons, List.foldl_cons, findAt_crlf hrules.1 h, earlier_crlf hbest hfound]
    refine ih hrules.2 _ fun m hm => ?_
    rcases eq_of_earlier hm with hm | hm
    · exact hbest m hm
    · exact hfound m hm

end ScopeRule

namespace Scope

/-- The lines before the first one that is not blank, and the rest. -/
theorem exists_contentOffset (ls : List Text) :
    ∃ before rest : List Text, ls = before ++ rest ∧ Text.isBlank before.flatten = true ∧
      (∀ line ∈ rest.head?, Text.isBlank line = false) ∧ contentOffset ls = size before.flatten ∧
        contentOffset (ls.map Text.crlf) = size (Text.crlf before.flatten) := by
  induction ls with
  | nil => exact ⟨[], [], rfl, rfl, fun _ h => (by cases h), rfl, rfl⟩
  | cons line ls ih =>
    cases hblank : Text.isBlank line with
    | false =>
      refine ⟨[], line :: ls, rfl, rfl, ?_, ?_, ?_⟩
      · intro l hl
        cases hl
        exact hblank
      · simp [contentOffset, hblank]
      · simp [contentOffset, hblank]
    | true =>
      obtain ⟨before, rest, rfl, hbefore, hrest, hoffset, hoffset'⟩ := ih
      rw [List.map_append] at hoffset'
      refine ⟨line :: before, rest, rfl, ?_, hrest, ?_, ?_⟩
      · simp [hblank, hbefore]
      · simp [contentOffset, hblank, hoffset]
      · simp [contentOffset, hblank, hoffset']

/-- Where the first line that is not blank starts, there is a character that is no newline. -/
theorem exists_firstLine {code : Text} (h : Text.isBlank code = false) :
    ∃ (a : Text) (c : Char) (b : Text), code = a ++ c :: b ∧ c ≠ '\n' ∧
      contentOffset (lines code) = size a ∧
        contentOffset (lines (Text.crlf code)) = shift code (size a) := by
  obtain ⟨before, rest, hlines, hbefore, hrest, hoffset, hoffset'⟩ :=
    exists_contentOffset (lines code)
  have hcode : code = before.flatten ++ rest.flatten := by
    rw [← List.flatten_append, ← hlines, Text.flatten_lines]
  cases rest with
  | nil =>
    rw [hcode, List.flatten_nil, List.append_nil, hbefore] at h
    cases h
  | cons line rest =>
    have hmem : line ∈ lines code := by rw [hlines]; simp
    have hline := hrest line rfl
    obtain ⟨row, hrow, hends⟩ := Text.exists_row_of_mem_lines hmem
    cases row with
    | nil =>
      rcases hends with rfl | rfl
      · cases hline
      · cases hline
    | cons c row =>
      have hc : c ≠ '\n' := fun heq => hrow (heq ▸ List.mem_cons_self)
      obtain ⟨more, hmore⟩ : ∃ more, line = c :: more := by
        rcases hends with rfl | rfl
        · exact ⟨_, rfl⟩
        · exact ⟨_, rfl⟩
      have hcode : code = before.flatten ++ c :: (more ++ rest.flatten) := by
        rw [hcode, List.flatten_cons, hmore, List.cons_append]
      refine ⟨before.flatten, c, more ++ rest.flatten, hcode, hc, hoffset, ?_⟩
      rw [Text.lines_crlf, hoffset', hcode, Text.shift_size_append]

theorem dedentFrom_crlf {code done : Text} {base : Option Nat} {ls : List Text}
    (hcode : code = done ++ ls.flatten) :
    dedentFrom base (size (Text.crlf done)) (ls.map Text.crlf) =
      (dedentFrom base (size done) ls).map (shift code) := by
  induction ls generalizing done base with
  | nil => rfl
  | cons line rest ih =>
    have hcode' : code = (done ++ line) ++ rest.flatten := by
      rw [hcode, List.flatten_cons, List.append_assoc]
    have hstart : shift code (size done) = size (Text.crlf done) := by
      rw [hcode, Text.shift_size_append]
    have ih (base : Option Nat) :
        dedentFrom base (size (Text.crlf (done ++ line))) (rest.map Text.crlf) =
          (dedentFrom base (size (done ++ line)) rest).map (shift code) := ih hcode'
    unfold dedentFrom
    simp only [List.map_cons, ← Text.size_append, ← Text.crlf_append, Text.isBlank_crlf,
      Text.indentWidth_crlf]
    split
    · exact ih base
    · cases base with
      | none => exact ih _
      | some width =>
        simp only
        split
        · exact congrArg some hstart.symm
        · exact ih _

theorem dedent?_crlf (code : Text) :
    dedent? (Text.crlf code) = (dedent? code).map (shift code) := by
  have hcode : code = [] ++ (lines code).flatten := (Text.flatten_lines code).symm
  rw [dedent?, Text.lines_crlf]
  exact dedentFrom_crlf hcode

theorem cutAt_crlf {s : Section} {next? : Option ScopeMatch}
    (h : ∀ m ∈ next?, Boundary s.code m.start) :
    cutAt s.crlf (next?.map (.crlf s.code)) = (cutAt s next?).map .crlf := by
  cases next? with
  | none => rfl
  | some next =>
    simp only [Option.map_some, cutAt, ScopeMatch.crlf, Section.splitAt_crlf (h next rfl)]
    rfl

section Cuts

variable {rules : List ScopeRule} (hrules : ∀ rule ∈ rules, rule.Unbroken)

include hrules

theorem cutAtScope_crlf (s : Section) :
    cutAtScope rules s.crlf = (cutAtScope rules s).map .crlf := by
  cases hidle : rules.isEmpty || !s.hasCode with
  | true =>
    rw [cutAtScope_of_idle hidle, cutAtScope_of_idle (by rwa [Section.hasCode_crlf])]
    rfl
  | false =>
    have hcode : Text.isBlank s.code = false := by
      simpa [Section.hasCode] using (Bool.or_eq_false_iff.1 hidle).2
    obtain ⟨a, c, b, hsplit, hc, hfirst, hfirst'⟩ := exists_firstLine hcode
    have hline : Boundary s.code (size a) := ⟨a, _, hsplit, rfl⟩
    have hzero : Text.Aligned s.code 0 0 := by
      simpa using (Text.boundary_zero s.code).aligned
    have hcrlf : s.crlf.code = Text.crlf s.code := rfl
    rw [cutAtScope_eq hidle, cutAtScope_eq (by rwa [Section.hasCode_crlf]), hcrlf, hfirst, hfirst',
      ScopeRule.findFirst_crlf hrules hzero]
    cases hown : ScopeRule.findFirst rules s.code 0 with
    | none => rfl
    | some own =>
      obtain ⟨hstart, hstop, _⟩ := ScopeRule.boundary_of_findFirst hown
      simp only [Option.map_some, ScopeMatch.crlf, Text.shift_le_iff hstart hline]
      split
      · -- The scope is the section's own: the search goes on behind it and the line's start.
        rw [ScopeRule.findFirst_crlf hrules (Text.aligned_max hsplit hc hstop)]
        exact cutAt_crlf (s := { s with scope := some own.label }) fun m hm =>
          (ScopeRule.boundary_of_findFirst hm).1
      · have hcut : ∀ m ∈ some own, Boundary s.code m.start := by
          rintro m ⟨⟩
          exact hstart
        exact cutAt_crlf hcut

theorem cutAtDedent_crlf (s : Section) :
    cutAtDedent rules s.crlf = (cutAtDedent rules s).map .crlf := by
  have hdedent : dedent? s.crlf.code = (dedent? s.code).map (shift s.code) := dedent?_crlf s.code
  rw [cutAtDedent, cutAtDedent, hdedent]
  cases hpos : dedent? s.code with
  | none => exact cutAtScope_crlf hrules s
  | some pos =>
    have hboundary := (lineStart_of_dedent? hpos).boundary
    simp only [Option.map_some, Section.splitAt_crlf hboundary, List.map_append, List.map_singleton]
    rw [cutAtScope_crlf hrules]
    simp only [Section.crlf, Text.indentWidth_crlf]

end Cuts

/-- However often a section is cut, the pieces are the same in both forms: they get shorter, so that
there is fuel for all of them. -/
theorem pieces_crlf {cut : Section → List Section} (hcut : ∀ s, cut s.crlf = (cut s).map .crlf)
    (hshrinks : ∀ s, Shrinks s (cut s)) {fuel fuel' : Nat} {s : Section}
    (hfuel : s.code.length < fuel) (hfuel' : s.crlf.code.length < fuel') :
    pieces cut fuel' s.crlf = (pieces cut fuel s).map .crlf := by
  induction fuel generalizing fuel' s with
  | zero => exact absurd hfuel (Nat.not_lt_zero _)
  | succ fuel ih =>
    obtain _ | fuel' := fuel'
    · exact absurd hfuel' (Nat.not_lt_zero _)
    · rw [pieces, pieces, hcut]
      cases hparts : cut s with
      | nil => rfl
      | cons first rest =>
        simp only [List.map_cons, List.flatMap_map, List.map_flatMap]
        refine congrArg _ ?_
        rw [List.flatMap_def, List.flatMap_def]
        refine congrArg List.flatten (List.map_congr_left fun p hp => ?_)
        obtain ⟨a, b, ha, hcode⟩ := hshrinks s p (by rw [hparts]; exact hp)
        have hlength := List.length_pos_iff.2 ha
        have hcrlf : s.crlf.code = Text.crlf a ++ (p.crlf.code ++ Text.crlf b) := by
          simp only [Section.crlf, hcode, Text.crlf_append]
        have hlength' := Text.length_le_crlf a
        rw [hcode, List.length_append, List.length_append] at hfuel
        rw [hcrlf, List.length_append, List.length_append] at hfuel'
        exact ih (by omega) (by omega)

theorem splitAll_crlf {cut : Section → List Section} (hcut : ∀ s, cut s.crlf = (cut s).map .crlf)
    (hshrinks : ∀ s, Shrinks s (cut s)) (sections : List Section) :
    splitAll cut (sections.map .crlf) = (splitAll cut sections).map .crlf := by
  rw [splitAll, splitAll, List.flatMap_map, List.map_flatMap]
  refine congrArg (sections.flatMap ·) (funext fun s => ?_)
  exact pieces_crlf hcut hshrinks (Nat.lt_succ_self _) (Nat.lt_succ_self _)

end Scope

end Marginalia
