import Marginalia.Proofs.Regex.Place
import Marginalia.Proofs.Scope.Pieces
import Marginalia.Proofs.Section.Closed

/-! # Cuts between lines

If every scope rule is bound to a line start, sections are cut between lines only.
-/

namespace Marginalia

open Text (EndsLine LineStart lines size)
open Section (Closed Closes closes_singleton)

namespace ScopeRule

theorem eq_of_earlier {best found : Option ScopeMatch} {m : ScopeMatch}
    (h : earlier best found = some m) : best = some m ∨ found = some m := by
  cases best with
  | none => exact .inr h
  | some a =>
    cases found with
    | none => exact .inl h
    | some b =>
      rw [earlier] at h
      split at h
      · exact .inr h
      · exact .inl h

theorem exists_of_findFirst {rules : List ScopeRule} {t : Text} {offset : Nat} {m : ScopeMatch}
    (h : findFirst rules t offset = some m) : ∃ rule ∈ rules, rule.findAt t offset = some m := by
  suffices hfold : ∀ best, rules.foldl (fun best rule => earlier best (rule.findAt t offset)) best =
      some m → best = some m ∨ ∃ rule ∈ rules, rule.findAt t offset = some m by
    rcases hfold none h with hnone | hrule
    · cases hnone
    · exact hrule
  clear h
  induction rules with
  | nil => exact fun best h => .inl h
  | cons rule rules ih =>
    intro best h
    rcases ih _ h with hbest | ⟨found, hmem, hfound⟩
    · rcases eq_of_earlier hbest with hbest | hfound
      · exact .inl hbest
      · exact .inr ⟨rule, List.mem_cons_self, hfound⟩
    · exact .inr ⟨found, List.mem_cons_of_mem _ hmem, hfound⟩

theorem lineStart_of_findFirst {rules : List ScopeRule} {t : Text} {offset : Nat} {m : ScopeMatch}
    (hrules : ∀ rule ∈ rules, rule.pattern.pattern.startsLine = true)
    (h : findFirst rules t offset = some m) : LineStart t m.start := by
  obtain ⟨rule, hmem, hfound⟩ := exists_of_findFirst h
  rw [findAt] at hfound
  split at hfound
  · cases hfound
  · obtain ⟨found, hmatch, rfl⟩ := Option.map_eq_some_iff.1 hfound
    exact Regex.lineStart_of_findAt (hrules rule hmem) hmatch

end ScopeRule

namespace Scope

theorem lineStart_of_dedentFrom {code done t : Text} {base : Option Nat} {pos : Nat}
    (hcode : code = done ++ t) (hend : t ≠ [] → EndsLine done)
    (h : dedentFrom base (size done) (lines t) = some pos) : LineStart code pos := by
  generalize hls : lines t = ls at h
  induction ls generalizing done t base with
  | nil => cases h
  | cons line rest ih =>
    obtain ⟨u, rfl, rfl, _, hlineEnd⟩ := Text.exists_of_lines_eq_cons hls
    have hend : EndsLine done := hend fun hnil => by
      rw [hnil] at hls
      cases hls
    have hnext {base : Option Nat}
        (h : dedentFrom base (size done + size line) (lines u) = some pos) :
        LineStart code pos := by
      rw [← Text.size_append] at h
      exact ih (by rw [hcode, List.append_assoc]) (fun hu => hend.append (hlineEnd hu)) rfl h
    unfold dedentFrom at h
    split at h
    · exact hnext h
    · split at h
      · exact hnext h
      · split at h
        · obtain rfl := Option.some.inj h
          exact ⟨done, line ++ u, hcode, rfl, hend⟩
        · exact hnext h

theorem lineStart_of_dedent? {code : Text} {pos : Nat} (h : dedent? code = some pos) :
    LineStart code pos :=
  lineStart_of_dedentFrom (List.nil_append code).symm (fun _ => Text.endsLine_nil) h

section Closes

variable {rules : List ScopeRule} (hrules : ∀ rule ∈ rules, rule.pattern.pattern.startsLine = true)

include hrules

theorem closes_cutAtScope (s : Section) : Closes s.code (cutAtScope rules s) := by
  obtain ⟨scope, next?, hcut, hnext⟩ := exists_cutAtScope rules s
  rw [hcut]
  cases next? with
  | none => exact closes_singleton id
  | some next =>
    obtain ⟨offset, hfound, _⟩ := hnext next rfl
    have hstart := ScopeRule.lineStart_of_findFirst hrules hfound
    exact Closes.cons hstart.endsLine_upTo (closes_singleton fun hend => hend.after next.start)

theorem closes_cutAtDedent (s : Section) : Closes s.code (cutAtDedent rules s) := by
  rw [cutAtDedent]
  split
  · exact closes_cutAtScope hrules s
  · rename_i pos hpos
    have hhead := (lineStart_of_dedent? hpos).endsLine_upTo
    refine Closes.append ?_ (closes_singleton fun hend => hend.after pos)
    exact (closes_cutAtScope hrules (s.splitAt pos).1).endsLine hhead

end Closes

theorem closes_pieces {cut : Section → List Section} (hcut : ∀ s, Closes s.code (cut s))
    (fuel : Nat) (s : Section) : Closes s.code (pieces cut fuel s) := by
  induction fuel generalizing s with
  | zero => exact closes_singleton id
  | succ fuel ih =>
    obtain ⟨hclosed, hall⟩ := hcut s
    rw [pieces]
    split
    · exact Section.closes_nil s.code
    · rename_i first rest hparts
      rw [hparts] at hclosed hall
      obtain ⟨hfirst, hrest⟩ := List.pairwise_cons.1 hclosed
      constructor
      · refine List.pairwise_cons.2 ⟨fun p hp => ?_, Closed.flatMap hrest fun t _ => ih t⟩
        obtain ⟨t, ht, _⟩ := List.mem_flatMap.1 hp
        exact hfirst t ht
      · intro hend p hp
        rcases List.mem_cons.1 hp with rfl | hp
        · exact hall hend p List.mem_cons_self
        · obtain ⟨t, ht, hp⟩ := List.mem_flatMap.1 hp
          exact (ih t).endsLine (hall hend t (List.mem_cons_of_mem _ ht)) p hp

theorem closed_splitAll {cut : Section → List Section} (hcut : ∀ s, Closes s.code (cut s))
    {sections : List Section} (h : Closed sections) : Closed (splitAll cut sections) :=
  h.flatMap fun s _ => closes_pieces hcut _ s

end Scope

end Marginalia
