import Marginalia.Comment.Docstring
import Marginalia.Proofs.Comment.Exposed
import Marginalia.Proofs.Regex.Place
import Marginalia.Proofs.Section.Closed

/-! # Where docstrings lie

The matches of a pattern, and so the spans that are made of them, are orderly. Docstrings start and
end where lines do, so that they expose nothing.
-/

namespace Marginalia

open Text (Boundary LineStart)

namespace Regex

theorem findAt_of_nextMatch {re : Regex} {t : Text} {offset : Nat} {last : Option Nat} {m : Match}
    (h : re.nextMatch t offset last = some m) :
    ∃ offset', offset ≤ offset' ∧ (offset ≤ Text.size t → offset' ≤ Text.size t) ∧
      re.findAt t offset' = some m := by
  rw [nextMatch] at h
  split at h
  · cases h
  · rename_i found hfound
    split at h
    · split at h
      · exact ⟨offset + 1, Nat.le_succ _, fun _ => ‹_›, h⟩
      · cases h
    · exact ⟨offset, Nat.le_refl _, id, hfound.trans h⟩

theorem exists_findAt_of_mem_matchesFrom {re : Regex} {t : Text} {fuel offset : Nat}
    {last : Option Nat} {m : Match} (h : m ∈ re.matchesFrom t fuel offset last) :
    ∃ offset', re.findAt t offset' = some m := by
  induction fuel generalizing offset last with
  | zero => cases h
  | succ fuel ih =>
    rw [matchesFrom] at h
    split at h
    · cases h
    · rename_i first hfirst
      rcases List.mem_cons.1 h with rfl | h
      · obtain ⟨offset', _, _, hfound⟩ := findAt_of_nextMatch hfirst
        exact ⟨offset', hfound⟩
      · exact ih h

end Regex

namespace Section

def spanOf? (code : Text) (m : Match) : Option Span :=
  if m.isEmpty then none else some ⟨m.start, m.stop, (m.group? code 1).getD (m.text code)⟩

theorem exists_of_mem_patternSpans {re : Regex} {code : Text} {s : Span}
    (h : s ∈ patternSpans re code) :
    ∃ (offset : Nat) (m : Match), re.findAt code offset = some m ∧
      s = ⟨m.start, m.stop, (m.group? code 1).getD (m.text code)⟩ := by
  obtain ⟨m, hm, hs⟩ := List.mem_filterMap.1 h
  obtain ⟨offset, hfound⟩ := Regex.exists_findAt_of_mem_matchesFrom hm
  split at hs
  · cases hs
  · obtain rfl := Option.some.inj hs
    exact ⟨offset, m, hfound, rfl⟩

theorem orderly_filterMap_spanOf? (re : Regex) (code : Text) (fuel offset : Nat)
    (last : Option Nat) (hoffset : offset ≤ Text.size code) :
    Span.Orderly code offset ((re.matchesFrom code fuel offset last).filterMap (spanOf? code)) := by
  induction fuel generalizing offset last with
  | zero => trivial
  | succ fuel ih =>
    rw [Regex.matchesFrom]
    split
    · trivial
    · rename_i m hm
      obtain ⟨offset', hle, hsize, hfound⟩ := Regex.findAt_of_nextMatch hm
      have hstart := Regex.le_start_of_findAt hfound (hsize hoffset)
      have hstop := Regex.start_le_stop_of_findAt hfound
      have hboundary := Regex.boundary_stop_of_findAt hfound
      have ih := ih m.stop (some m.stop) hboundary.le_size
      cases hempty : m.isEmpty with
      | true =>
        rw [List.filterMap_cons_none (by rw [spanOf?, if_pos hempty])]
        exact ih.mono (by omega)
      | false =>
        rw [List.filterMap_cons_some (by rw [spanOf?, if_neg (by simp [hempty])])]
        exact ⟨Nat.le_trans hle hstart, Regex.boundary_start_of_findAt hfound, hstop, hboundary, ih⟩

theorem orderly_patternSpans (re : Regex) (code : Text) :
    Span.Orderly code 0 (patternSpans re code) :=
  orderly_filterMap_spanOf? re code _ 0 none (Nat.zero_le _)

theorem lineStart_of_mem_patternSpans {re : Regex} (hre : re.pattern.startsLine = true)
    {code : Text} {s : Span} (h : s ∈ patternSpans re code) : LineStart code s.start := by
  obtain ⟨_, m, hfound, rfl⟩ := exists_of_mem_patternSpans h
  exact Regex.lineStart_of_findAt hre hfound

end Section

namespace Docstring

theorem startsLine_pattern : regex.pattern.startsLine = true := rfl

theorem endsLine_pattern : regex.pattern.endsLine = true := rfl

theorem loopsRead_pattern : regex.pattern.loopsRead = true := rfl

theorem code_unquoteSection (s : Section) : (unquoteSection s).code = s.code := by
  rw [unquoteSection]
  split <;> rfl

theorem closes_unquote {code : Text} {first : Section} {parts : List Section}
    (h : Section.Closes code (first :: parts)) :
    Section.Closes code (first :: parts.map unquoteSection) := by
  obtain ⟨hclosed, hall⟩ := h
  obtain ⟨hfirst, hparts⟩ := List.pairwise_cons.1 hclosed
  constructor
  · refine List.pairwise_cons.2 ⟨fun p hp => ?_, ?_⟩
    · obtain ⟨q, hq, rfl⟩ := List.mem_map.1 hp
      exact hfirst q hq
    · refine List.pairwise_map.2 (hparts.imp fun h => ?_)
      rwa [code_unquoteSection]
  · intro hcode p hp
    rcases List.mem_cons.1 hp with rfl | hp
    · exact hall hcode p List.mem_cons_self
    · obtain ⟨q, hq, rfl⟩ := List.mem_map.1 hp
      rw [code_unquoteSection]
      exact hall hcode q (List.mem_cons_of_mem _ hq)

theorem closed_extract {sections : List Section} (h : Section.Closed sections) :
    Section.Closed (extract sections) := by
  refine h.flatMap fun s _ => ?_
  have hparts : Section.Closes s.code (s.splitByPattern regex true) :=
    Section.closes_splitBySpans (Section.orderly_patternSpans regex s.code)
      fun _ hspan => Section.lineStart_of_mem_patternSpans startsLine_pattern hspan
  split
  · exact Section.closes_nil s.code
  · rename_i first parts hsplit
    exact closes_unquote (hsplit ▸ hparts)

theorem not_opens_of_mem_patternSpans {row code : Text} (hrow : row ≠ []) {span : Span}
    (h : span ∈ Section.patternSpans regex code) :
    ¬ Text.Opens row (Text.after span.stop code) := by
  obtain ⟨_, m, hfound, rfl⟩ := Section.exists_of_mem_patternSpans h
  have hhead := Regex.lineEnd_of_findAt loopsRead_pattern endsLine_pattern hfound
  rintro ⟨line, hline, hbare⟩
  cases hafter : Text.after m.stop code with
  | nil =>
    rw [hafter] at hline
    cases hline
  | cons c t =>
    obtain rfl := hhead c (by rw [hafter]; rfl)
    rw [hafter, Text.lines, if_pos rfl] at hline
    cases hline
    exact hrow hbare.symm

theorem free_extract {row : Text} (hrow : row ≠ []) {sections : List Section}
    (h : ∀ s ∈ sections, Text.Free row s.code) : ∀ p ∈ extract sections, Text.Free row p.code := by
  intro p hp
  obtain ⟨s, hs, hp⟩ := List.mem_flatMap.1 hp
  have hparts : ∀ q ∈ s.splitByPattern regex true, Text.Free row q.code :=
    (Section.free_splitBySpans_iff (h s hs) (Section.orderly_patternSpans regex s.code)
      (fun _ hspan => Section.lineStart_of_mem_patternSpans startsLine_pattern hspan) true).2
      fun _ hspan => not_opens_of_mem_patternSpans hrow hspan
  split at hp
  · cases hp
  · rename_i first parts hsplit
    rw [hsplit] at hparts
    rcases List.mem_cons.1 hp with rfl | hp
    · exact hparts p List.mem_cons_self
    · obtain ⟨q, hq, rfl⟩ := List.mem_map.1 hp
      rw [code_unquoteSection]
      exact hparts q (List.mem_cons_of_mem _ hq)

end Docstring

end Marginalia
