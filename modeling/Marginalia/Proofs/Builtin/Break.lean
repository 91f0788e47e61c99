import Marginalia.Proofs.Builtin.Source
import Marginalia.Proofs.Language.Break

/-! # Built-in languages and line endings

The languages whose comments and scopes have nothing to do with line breaks segment a text with
either kind of line endings alike.
-/

namespace Marginalia.Builtin

/-- Languages in whose grammar nothing depends on how a line break is written. -/
def unbroken : List Outline :=
  [python, ruby, haskell, lua, coffeeScript, scheme, perl, sql, erlang, tcl]

theorem check_unbroken :
    (unbroken.all fun o => o.build.toOption.any fun l => decide l.grammar.Unbroken) = true := by
  decide +kernel

theorem mem_outlines_of_unbroken {o : Outline} (h : o ∈ unbroken) :
    o ∈ outlines ∧ o.kind = .source := by
  simp only [unbroken, List.mem_cons, List.not_mem_nil, or_false] at h
  rcases h with rfl | rfl | rfl | rfl | rfl | rfl | rfl | rfl | rfl | rfl <;>
    exact ⟨by simp [outlines], rfl⟩

theorem exists_unbroken {o : Outline} (h : o ∈ unbroken) :
    ∃ l, o.build = .ok l ∧ IsSource l ∧ l.grammar.Unbroken := by
  obtain ⟨hmem, hkind⟩ := mem_outlines_of_unbroken h
  obtain ⟨l, hbuild, hl⟩ := exists_isSource hmem hkind
  have hchecked := List.all_eq_true.1 check_unbroken o h
  simp only [hbuild, Except.toOption, Option.any_some, decide_eq_true_eq] at hchecked
  exact ⟨l, hbuild, hl, hchecked⟩

/-- Line endings do not change a segmentation: with carriage returns before all newlines there are
the same sections, apart from those carriage returns. -/
theorem dropReturns_segment_crlf {o : Outline} (h : o ∈ unbroken) :
    ∃ l, o.build = .ok l ∧ IsSource l ∧ ∀ t : Text, '\r' ∉ t →
      (l.segment (Text.crlf t)).map .dropReturns = l.segment t := by
  obtain ⟨l, hbuild, hl, hg⟩ := exists_unbroken h
  obtain ⟨removed, hstaged, _⟩ := hl.exists_staged
  exact ⟨l, hbuild, hl, fun t ht => hstaged.dropReturns_segment hl.byLines hg ht⟩

theorem dropReturns_segment_crlf_python :
    python ∈ unbroken ∧ '\r' ∉ ("# one\n@two\ndef three():\n" : Text) ∧
      ∃ l, python.build = .ok l ∧ IsSource l ∧
        (l.segment (Text.crlf "# one\n@two\ndef three():\n")).map .dropReturns =
          l.segment "# one\n@two\ndef three():\n" := by
  have hpython : python ∈ unbroken := by simp [unbroken]
  have htext : '\r' ∉ ("# one\n@two\ndef three():\n" : Text) := by decide
  obtain ⟨l, hbuild, hl, hsegment⟩ := dropReturns_segment_crlf hpython
  exact ⟨hpython, htext, l, hbuild, hl, hsegment _ htext⟩

end Marginalia.Builtin
