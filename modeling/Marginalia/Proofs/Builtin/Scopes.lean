import Marginalia.Proofs.Builtin.Source
import Marginalia.Proofs.Scope.Headed

/-! # Built-in languages and their scopes

In most of the languages with scopes, a scope begins a line. Split at such scopes, every section has
at most one of them, at its head.
-/

namespace Marginalia.Builtin

open Scope (Headed splitByIndent splitByKeyword)

/-- Languages whose scopes begin lines. -/
def lineScoped : List Outline := [python, ruby, fortran, c, javaScript, php]

theorem check_lineScoped :
    (lineScoped.all fun o => o.build.toOption.any fun l => !l.grammar.scopeRules.isEmpty &&
      l.grammar.scopeRules.all fun rule => decide rule.pattern.pattern.LineBound) = true := by
  decide +kernel

theorem exists_lineLocal {o : Outline} (h : o ∈ lineScoped) :
    ∃ l, o.build = .ok l ∧ l.grammar.scopeRules ≠ [] ∧
      ∀ rule ∈ l.grammar.scopeRules, rule.LineLocal := by
  have hchecked := List.all_eq_true.1 check_lineScoped o h
  obtain ⟨l, hbuild, hl⟩ := exists_of_any_toOption hchecked
  rw [Bool.and_eq_true, Bool.not_eq_true', List.isEmpty_eq_false_iff, List.all_eq_true] at hl
  refine ⟨l, hbuild, hl.1, fun rule hrule => ?_⟩
  exact ScopeRule.lineLocal_of_lineBound (of_decide_eq_true (hl.2 rule hrule))

/-- No scope is left inside a section. -/
theorem headed_split :
    (∀ o ∈ lineScoped, ∃ l, o.build = .ok l ∧ l.grammar.scopeRules ≠ [] ∧
      ∀ rule ∈ l.grammar.scopeRules, rule.LineLocal) ∧
    ∀ rules : List ScopeRule, (∀ rule ∈ rules, rule.LineLocal) → ∀ sections : List Section,
      (∀ s ∈ splitByIndent rules sections, Headed rules s) ∧
        ∀ s ∈ splitByKeyword rules sections, Headed rules s := by
  refine ⟨fun o => exists_lineLocal, ?_⟩
  intro rules hrules sections
  constructor
  · exact Scope.forall_mem_splitAll (Scope.shrinks_cutAtDedent rules)
      (Scope.headed_head_cutAtDedent hrules) sections
  · exact Scope.forall_mem_splitAll (Scope.shrinks_cutAtScope rules)
      (Scope.headed_head_cutAtScope hrules) sections

theorem headed_split_python :
    python ∈ lineScoped ∧ ∃ l, python.build = .ok l ∧ l.grammar.scopeRules ≠ [] ∧
      (∀ rule ∈ l.grammar.scopeRules, rule.LineLocal) ∧
        ∀ s ∈ splitByIndent l.grammar.scopeRules [.ofCode "x\n\n  def y():\n    z\n"],
          Headed l.grammar.scopeRules s := by
  have hpython : python ∈ lineScoped := by simp [lineScoped]
  obtain ⟨l, hbuild, hne, hlocal⟩ := headed_split.1 python hpython
  exact ⟨hpython, l, hbuild, hne, hlocal, (headed_split.2 _ hlocal _).1⟩

end Marginalia.Builtin
