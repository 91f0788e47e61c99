import Marginalia.Proofs.Scope.Break
import Marginalia.Proofs.Scope.LineLocal

/-! # Sections headed by their scopes

Cut at line-local rules, a section is labelled by the match of its first line that is not blank, and
it ends before the next line that is matched (`Begins.cutAtScope_eq`). So a line that is matched is
never left inside a section (`Headed`).
-/

namespace Marginalia

open Text (bareLine isBlank lines located rowsFrom size)

namespace Scope

open ScopeRule (firstIn matchRow)

/-- A line that a rule matches is the first one of the section that is not blank, and its match by
the first such rule labels the section. -/
def Headed (rules : List ScopeRule) (s : Section) : Prop :=
  ∀ (before after : List Text) (line : Text) (m : ScopeMatch),
    lines s.code = before ++ line :: after → matchRow rules (bareLine line) = some m →
      (∀ l ∈ before, isBlank l = true) ∧ isBlank line = false ∧ s.scope = some m.label

theorem mem_or_eq_of_append_cons_eq {α : Type} {xs ys zs ws : List α} {x y : α}
    (h : xs ++ x :: ys = zs ++ y :: ws) : x ∈ zs ∨ (xs = zs ∧ x = y) ∨ x ∈ ws := by
  rcases List.append_eq_append_iff.1 h with ⟨us, hzs, hx⟩ | ⟨us, hxs, hy⟩
  · cases us with
    | nil =>
      rw [List.append_nil] at hzs
      exact .inr (.inl ⟨hzs.symm, (List.cons.inj hx).1⟩)
    | cons u us =>
      obtain ⟨rfl, _⟩ := List.cons.inj hx
      rw [hzs]
      exact .inl (by simp)
  · cases us with
    | nil =>
      rw [List.append_nil] at hxs
      exact .inr (.inl ⟨hxs, (List.cons.inj hy).1.symm⟩)
    | cons u us =>
      obtain ⟨_, rfl⟩ := List.cons.inj hy
      exact .inr (.inr (by simp))

/-- The lines of some code: blank ones, the first that is not blank, and those behind it. -/
structure Begins (code : Text) (blanks : List Text) (first : Text) (later : List Text) : Prop where
  lines_eq : lines code = blanks ++ first :: later
  blank : ∀ line ∈ blanks, isBlank line = true
  ink : isBlank first = false

theorem exists_begins {code : Text} (h : isBlank code = false) :
    ∃ blanks first later, Begins code blanks first later := by
  obtain ⟨blanks, rest, hlines, hblanks, hrest, _⟩ := exists_contentOffset (lines code)
  cases rest with
  | nil =>
    rw [← Text.flatten_lines code, hlines, List.append_nil, hblanks] at h
    cases h
  | cons first later =>
    refine ⟨blanks, first, later, hlines, ?_, hrest first rfl⟩
    intro line hline
    rw [isBlank, List.all_eq_true] at hblanks ⊢
    exact fun c hc => hblanks c (List.mem_flatten.2 ⟨line, hline, hc⟩)

namespace Begins

variable {s : Section} {code first : Text} {blanks later : List Text}

theorem hasCode (h : Begins s.code blanks first later) : s.hasCode = true := by
  have hfirst : first ∈ lines s.code := by
    rw [h.lines_eq]
    simp
  rw [Section.hasCode, Bool.not_eq_true']
  by_contra hblank
  rw [Bool.not_eq_false] at hblank
  cases (Text.isBlank_of_mem_lines hblank hfirst).symm.trans h.ink

theorem contentOffset_eq (h : Begins code blanks first later) :
    contentOffset (lines code) = size blanks.flatten := by
  obtain ⟨hlines, hblanks, hink⟩ := h
  rw [hlines]
  clear hlines
  induction blanks with
  | nil => exact if_neg (by simp [hink])
  | cons blank blanks ih =>
    rw [List.forall_mem_cons] at hblanks
    rw [List.cons_append, contentOffset, if_pos hblanks.1, ih hblanks.2, List.flatten_cons,
      Text.size_append]

end Begins

/-- The first part has the lines before the cut, the second one those behind it. -/
theorem cutAt_of_lines {s : Section} {before after : List Text} {next : ScopeMatch}
    (hlines : lines s.code = before ++ after) (hstart : next.start = size before.flatten) :
    cutAt s (some next) = [{ s with code := before.flatten },
      { code := after.flatten, level := s.level, scope := some next.label }] := by
  obtain ⟨hcode, _⟩ := Text.lines_parts hlines
  simp only [cutAt, Section.splitAt, hstart, hcode, Text.upTo_size_append, Text.after_size_append]

section Heads

variable {rules : List ScopeRule} (hrules : ∀ rule ∈ rules, rule.LineLocal)
variable {code : Text} {blanks later : List Text} {first : Text}

include hrules

theorem matchRow_of_mem_lines {t line : Text} (hline : line ∈ lines t)
    (hblank : isBlank line = true) : matchRow rules (bareLine line) = none := by
  obtain ⟨_, _, hrow⟩ := Text.exists_bareLine hline
  exact ScopeRule.matchRow_of_isBlank hrules hrow (by rwa [Text.isBlank_bareLine])

theorem Begins.headed {s : Section} (h : Begins s.code blanks first later)
    (hlater : ∀ line ∈ later, matchRow rules (bareLine line) = none)
    (hscope : ∀ m, matchRow rules (bareLine first) = some m → s.scope = some m.label) :
    Headed rules s := by
  intro before after line m hlines hm
  rcases mem_or_eq_of_append_cons_eq (hlines.symm.trans h.lines_eq) with hmem | ⟨rfl, rfl⟩ | hmem
  · have hline : line ∈ lines s.code := by
      rw [hlines]
      simp
    cases hm.symm.trans (matchRow_of_mem_lines hrules hline (h.blank line hmem))
  · exact ⟨h.blank, h.ink, hscope m hm⟩
  · cases hm.symm.trans (hlater line hmem)

/-- A search from the start passes the blank lines. -/
theorem Begins.findFirst_zero (h : Begins code blanks first later) :
    ScopeRule.findFirst rules code 0 =
      ((matchRow rules (bareLine first)).map (.moved (size blanks.flatten))).or
        (firstIn (matchRow rules) (located (size blanks.flatten + size first) later)) := by
  have hrows : rowsFrom 0 code = located 0 (lines code) :=
    Text.rowsFrom_size_append Text.endsLine_nil code
  have hblanks : firstIn (matchRow rules) (located 0 blanks) = none := by
    rw [firstIn, List.findSome?_eq_none_iff]
    intro row hrow
    obtain ⟨line, hline, hbare⟩ := Text.exists_line_of_mem_located hrow
    have hmem : line ∈ lines code := by
      rw [h.lines_eq]
      exact List.mem_append_left _ hline
    rw [hbare, matchRow_of_mem_lines hrules hmem (h.blank line hline), Option.map_none]
  rw [ScopeRule.findFirst_eq hrules, hrows, h.lines_eq, Text.located_append, Nat.zero_add, firstIn,
    List.findSome?_append, ← firstIn, hblanks, Option.none_or, ← firstIn, located,
    ScopeRule.firstIn_cons]

/-- A search from within the first line that is not blank goes on with the lines behind it. -/
theorem Begins.findFirst_later (h : Begins code blanks first later) {offset : Nat}
    (hlt : size blanks.flatten < offset) (hle : offset ≤ size blanks.flatten + size first) :
    ScopeRule.findFirst rules code offset =
      firstIn (matchRow rules) (located (size blanks.flatten + size first) later) := by
  obtain ⟨u, hcode, hu, _, hends⟩ := Text.exists_of_lines_eq_append h.lines_eq
  have hne : u ≠ [] := by
    rintro rfl
    cases hu
  rw [ScopeRule.findFirst_eq hrules, hcode, Text.rowsFrom_append (hends hne) (Nat.le_of_lt hlt), hu,
    located, List.filter_cons_of_neg (by simpa using hlt), Text.filter_located_of_le hle]

/-- A match of the first line labels the section, and the cut is at the first match behind it. -/
theorem Begins.cutAtScope_eq {s : Section} (h : Begins s.code blanks first later)
    (hbusy : (rules.isEmpty || !s.hasCode) = false) :
    cutAtScope rules s =
      cutAt { s with scope := ((matchRow rules (bareLine first)).map (·.label)).or s.scope }
        (firstIn (matchRow rules) (located (size blanks.flatten + size first) later)) := by
  have hmem : first ∈ lines s.code := by
    rw [h.lines_eq]
    simp
  have hpos : size first ≠ 0 := mt Text.size_eq_zero_iff.1 (Text.ne_nil_of_mem_lines hmem)
  rw [Scope.cutAtScope_eq hbusy, h.contentOffset_eq, h.findFirst_zero hrules]
  cases hm : matchRow rules (bareLine first) with
  | some m =>
    obtain ⟨ending, hending, hrow⟩ := Text.exists_bareLine hmem
    obtain ⟨hstart, hstop⟩ := ScopeRule.bounds_of_matchRow hrules hrow hm
    have hsize : size first = size (bareLine first) + size ending := by
      rw [← Text.size_append, ← hending]
    have hown : size blanks.flatten + m.start ≤ size blanks.flatten := by omega
    have hnext : ScopeRule.findFirst rules s.code
          (max (size blanks.flatten + m.stop) (size blanks.flatten + 1)) =
        firstIn (matchRow rules) (located (size blanks.flatten + size first) later) :=
      h.findFirst_later hrules (by omega) (by omega)
    simp only [Option.map_some, Option.some_or, ScopeMatch.moved, if_pos hown, hnext]
  | none =>
    cases hnext : firstIn (matchRow rules)
      (located (size blanks.flatten + size first) later) with
    | none => rfl
    | some next =>
      have hstart := ScopeRule.le_start_of_firstIn hnext
      exact if_neg (by omega)

/-- A cut behind the first line that is not blank falls between the lines that are passed and the
next one that is matched, whose match labels the second part. -/
theorem Begins.exists_cut {s : Section} (h : Begins s.code blanks first later) :
    ∃ passed, (∀ line ∈ passed, matchRow rules (bareLine line) = none) ∧
      let parts := cutAt s
        (firstIn (matchRow rules) (located (size blanks.flatten + size first) later))
      (parts = [s] ∧ later = passed) ∨
        ∃ head tail, parts = [head, tail] ∧ Begins head.code blanks first passed ∧
          head.scope = s.scope ∧ ∃ line rest m, Begins tail.code [] line rest ∧
            matchRow rules (bareLine line) = some m ∧ tail.scope = some m.label := by
  have hmem {line : Text} (hline : line ∈ later) : line ∈ lines s.code := by
    rw [h.lines_eq]
    simp [hline]
  have hstarts : ∀ line ∈ later, ∀ m ∈ matchRow rules (bareLine line), m.start = 0 := by
    intro line hline m hm
    obtain ⟨_, _, hrow⟩ := Text.exists_bareLine (hmem hline)
    exact (ScopeRule.bounds_of_matchRow hrules hrow hm).1
  obtain ⟨passed, rest, rfl, hpassed, hfound⟩ :=
    ScopeRule.exists_passed (size blanks.flatten + size first) hstarts
  refine ⟨passed, hpassed, ?_⟩
  cases hnext : firstIn (matchRow rules)
    (located (size blanks.flatten + size first) (passed ++ rest)) with
  | none =>
    rw [hnext] at hfound
    subst hfound
    exact .inl ⟨rfl, List.append_nil passed⟩
  | some next =>
    rw [hnext] at hfound
    obtain ⟨hstart, line, others, own, rfl, hown, hlabel⟩ := hfound
    have hlines : lines s.code = (blanks ++ first :: passed) ++ line :: others := by
      rw [h.lines_eq, List.append_assoc]
      rfl
    obtain ⟨_, hhead, htail⟩ := Text.lines_parts hlines
    have hstart : next.start = size (blanks ++ first :: passed).flatten := by
      rw [hstart]
      simp [Nat.add_assoc]
    have hink : isBlank line = false := by
      rw [Bool.eq_false_iff]
      intro hblank
      cases hown.symm.trans (matchRow_of_mem_lines hrules (hmem (by simp)) hblank)
    exact .inr ⟨_, _, cutAt_of_lines hlines hstart, ⟨hhead, h.blank, h.ink⟩, rfl, line, others, own,
      ⟨htail, List.forall_mem_nil _, hink⟩, hown, congrArg some hlabel⟩

theorem Begins.headed_cutAt {s : Section} (h : Begins s.code blanks first later)
    (hscope : ∀ m, matchRow rules (bareLine first) = some m → s.scope = some m.label) :
    ∀ p ∈ (cutAt s (firstIn (matchRow rules)
      (located (size blanks.flatten + size first) later))).head?, Headed rules p := by
  obtain ⟨passed, hpassed, ⟨hparts, rfl⟩ | ⟨head, tail, hparts, hhead, hsame, _⟩⟩ :=
    h.exists_cut hrules
  · rw [hparts]
    rintro p ⟨⟩
    exact h.headed hrules hpassed hscope
  · rw [hparts]
    rintro p ⟨⟩
    exact hhead.headed hrules hpassed (hsame ▸ hscope)

theorem headed_of_idle {s : Section} (h : (rules.isEmpty || !s.hasCode) = true) :
    Headed rules s := by
  intro before after line m hlines hm
  exfalso
  rcases Bool.or_eq_true_iff.1 h with hnil | hblank
  · rw [List.isEmpty_iff.1 hnil] at hm
    cases hm
  · have hline : line ∈ lines s.code := by
      rw [hlines]
      simp
    have hblank : isBlank s.code = true := by simpa [Section.hasCode] using hblank
    cases hm.symm.trans
      (matchRow_of_mem_lines hrules hline (Text.isBlank_of_mem_lines hblank hline))

theorem headed_head_cutAtScope (s : Section) :
    ∀ p ∈ (cutAtScope rules s).head?, Headed rules p := by
  cases hidle : rules.isEmpty || !s.hasCode with
  | true =>
    rw [cutAtScope_of_idle hidle]
    rintro p ⟨⟩
    exact headed_of_idle hrules hidle
  | false =>
    have hcode : isBlank s.code = false := by
      simpa [Section.hasCode] using (Bool.or_eq_false_iff.1 hidle).2
    obtain ⟨blanks, first, later, hbegins⟩ := exists_begins hcode
    rw [hbegins.cutAtScope_eq hrules hidle]
    apply Begins.headed_cutAt hrules
    · exact hbegins
    · intro m hm
      rw [hm]
      rfl

theorem headed_head_cutAtDedent (s : Section) :
    ∀ p ∈ (cutAtDedent rules s).head?, Headed rules p := by
  rw [head?_cutAtDedent]
  exact headed_head_cutAtScope hrules _

end Heads

end Scope

end Marginalia
