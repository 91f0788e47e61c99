import Mathlib.Data.List.Forall2
import Marginalia.Proofs.Registry.Order

/-! # Calls that go through the languages in any order

A name that several languages answer to leads to the first of them, so what a call does with it
depends on the order in which it goes through the languages. It does what the call with the name of
the language found does (`run_performAmong`). A registry that is reached with a new order for each
call is therefore also reached in the order of names, by calls that differ in such names alone
(`exists_after_of_reached`).
-/

namespace Marginalia.Registry

variable {r : Registry} {l : Language} {order : List Language} {calls : List Call} {name : Text}

namespace Call

def performAmong (order : List Language) : Call → Work Unit
  | add l => addInPlace l
  | give ext name => aliasInPlaceBy (·.byNameAmong order) ext name

/-- The call with the name of the language that it finds. -/
def named (r : Registry) (order : List Language) : Call → Call
  | add l => add l
  | give ext name => give ext (((r.byNameAmong order name).map (·.name)).getD name)

/-- The calls are the same, up to the name by which a language is looked up. -/
inductive Renames : Call → Call → Prop where
  | add (l : Language) : Renames (add l) (add l)
  | give (ext name name' : Text) : Renames (give ext name) (give ext name')

theorem renames_named (r : Registry) (order : List Language) (call : Call) :
    call.Renames (call.named r order) := by
  cases call with
  | add l => exact .add l
  | give ext name => exact .give ext name _

end Call

theorem Indexed.find?_of_byNameAmong (h : r.Indexed) (horder : order.Perm r.languages.values)
    (hfound : r.byNameAmong order name = some l) : r.languages.find? l.name = some l := by
  apply h.find?_of_mem_values
  rw [byNameAmong, Option.or_eq_some_iff] at hfound
  rcases hfound with hfind | ⟨_, hfind⟩
  · exact Table.mem_values_iff.2 ⟨name, hfind⟩
  · exact horder.mem_iff.1 (List.mem_of_find?_eq_some hfind)

theorem byNameAmong_eq_none_iff (horder : order.Perm r.languages.values) :
    r.byNameAmong order name = none ↔ r.byName? name = none := by
  rw [byName?_eq, byNameAmong, byNameAmong, Option.or_eq_none_iff, Option.or_eq_none_iff,
    List.find?_eq_none, List.find?_eq_none]
  simp only [horder.mem_iff]

/-- All that a look-up adds to the work is the language that it finds, or the name where there is
none. -/
theorem run_aliasInPlaceBy_congr {find? find?' : Registry → Text → Option Language}
    {name' : Text} (hfound : find? r name = find?' r name')
    (hname : find? r name = none → name = name') (ext : Text) :
    (aliasInPlaceBy find? ext name).run r = (aliasInPlaceBy find?' ext name').run r := by
  rw [aliasInPlaceBy, aliasInPlaceBy, EStateM.run_bind, EStateM.run_bind, EStateM.run_get]
  dsimp only
  rw [← hfound]
  cases hcase : find? r name with
  | none => rw [hname hcase]
  | some found => rfl

/-- A call in any order does what the call with the name found does in the order of names. -/
theorem run_performAmong (h : r.Indexed) (horder : order.Perm r.languages.values) (call : Call) :
    (call.performAmong order).run r = (call.named r order).perform.run r := by
  cases call with
  | add l => rfl
  | give ext name =>
    cases hfound : r.byNameAmong order name with
    | none =>
      have hnone := (byNameAmong_eq_none_iff horder).1 hfound
      simp only [Call.named, hfound, Option.map_none, Option.getD_none]
      exact run_aliasInPlaceBy_congr (hfound.trans hnone.symm) (fun _ => rfl) ext
    | some found =>
      have hself : r.byName? found.name = some found := by
        rw [byName?, h.find?_of_byNameAmong horder hfound]
      simp only [Call.named, hfound, Option.map_some, Option.getD_some]
      refine run_aliasInPlaceBy_congr (hfound.trans hself.symm) (fun hnone => ?_) ext
      rw [hfound] at hnone
      cases hnone

theorem run_performAmong_values (r : Registry) (call : Call) :
    (call.performAmong r.languages.values).run r = call.perform.run r := by
  cases call with
  | add l => rfl
  | give ext name =>
    exact run_aliasInPlaceBy_congr (byName?_eq r name).symm (fun _ => rfl) ext

def stepAmong (order : List Language) (r : Registry) (call : Call) : Registry :=
  match (call.performAmong order).run r with
  | .ok _ r' => r'
  | .error _ r' => r'

theorem stepAmong_eq (h : r.Indexed) (horder : order.Perm r.languages.values) (call : Call) :
    r.stepAmong order call = r.step (call.named r order) := by
  rw [stepAmong, run_performAmong h horder]
  rfl

/-- The registries that calls lead to, where each call goes through the languages in some order. -/
inductive Reached : List Call → Registry → Prop where
  | empty : Reached [] {}
  | call {calls : List Call} {r : Registry} {order : List Language} (call : Call)
      (h : Reached calls r) (horder : order.Perm r.languages.values) :
      Reached (calls ++ [call]) (r.stepAmong order call)

theorem exists_after_of_reached (h : Reached calls r) :
    ∃ calls', List.Forall₂ Call.Renames calls calls' ∧ after calls' = r := by
  induction h with
  | empty => exact ⟨[], .nil, rfl⟩
  | @call calls r order call _ horder ih =>
    obtain ⟨calls', hrenames, rfl⟩ := ih
    have hlast := call.renames_named (after calls') order
    refine ⟨calls' ++ [call.named (after calls') order], ?_, ?_⟩
    · exact List.rel_append hrenames (.cons hlast .nil)
    · rw [after_concat, stepAmong_eq (indexed_after calls') horder]

theorem indexed_of_reached (h : Reached calls r) : r.Indexed := by
  obtain ⟨calls', _, rfl⟩ := exists_after_of_reached h
  exact indexed_after calls'

/-- In any order, a call that fails leaves the registry as it was. -/
theorem eq_of_performAmong_eq_error (h : Reached calls r) (horder : order.Perm r.languages.values)
    {call : Call} {e : Error} {r' : Registry}
    (herror : (call.performAmong order).run r = .error e r') : r' = r := by
  rw [run_performAmong (indexed_of_reached h) horder, run_perform] at herror
  cases happly : (call.named r order).apply r with
  | ok _ =>
    rw [happly] at herror
    cases herror
  | error _ =>
    rw [happly] at herror
    cases herror
    rfl

/-- The order of names is one of the orders. -/
theorem reached_after (calls : List Call) : Reached calls (after calls) := by
  induction calls using List.reverseRecOn with
  | nil => exact .empty
  | append_singleton calls call ih =>
    have hstep : (after calls).stepAmong (after calls).languages.values call =
        (after calls).step call := by
      rw [stepAmong, run_performAmong_values]
      rfl
    rw [after_concat, ← hstep]
    exact .call call ih (.refl _)

end Marginalia.Registry
