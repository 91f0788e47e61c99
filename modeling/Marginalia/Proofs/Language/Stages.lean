import Marginalia.Proofs.Language.Assembly
import Marginalia.Proofs.Section.WholeLines

/-! # The two stages of a segmentation

A pipeline first takes the comments out, then it lays out what is left. The second stage keeps the
lines of code (`keepsLines_segment`).
-/

namespace Marginalia

open Section (Closed KeepsLines)

/-- The passes before the first one that sets levels. -/
def Pipeline.commentStage (p : Pipeline) : Pipeline :=
  ⟨p.passes.takeWhile fun pass => pass.name != Pass.setLevels.name⟩

namespace Language

/-- A text with its comments taken out and nothing else done to it. -/
def uncomment (l : Language) (t : Text) : List Section :=
  l.pipeline.commentStage.run l.grammar [.ofCode t]

/-- The pipeline of a source language is that of its capabilities, apart from some removed passes
that set no levels. -/
structure Staged (removed : List String) (l : Language) : Prop where
  kind_eq : l.kind = .source
  passes_eq : l.pipeline.passes =
    (CapabilityKind.assembled l.capabilities).filter (·.name ∉ removed)
  keepsLevels : Pass.setLevels.name ∉ removed

end Language

namespace CapabilityKind

theorem exists_of_mem_commentPasses {kinds : List CapabilityKind} {p : Pass}
    (h : p ∈ commentPasses kinds) :
    ∃ k ∈ kinds, k.placement = .before Pass.setLevels.name ∧ k.pass = p := by
  obtain ⟨k, hk, rfl⟩ := List.mem_map.1 h
  obtain ⟨hmem, hplace⟩ := List.mem_filter.1 hk
  exact ⟨k, hmem, of_decide_eq_true hplace, rfl⟩

theorem exists_of_mem_layoutPasses {kinds : List CapabilityKind} {p : Pass}
    (h : p ∈ layoutPasses kinds) :
    (∃ r : Rearrangement, r.pass = p) ∨
      ∃ k : CapabilityKind, k.placement ≠ .before Pass.setLevels.name ∧ k.pass = p := by
  have hplaced {place : Placement} (hplace : place ≠ .before Pass.setLevels.name)
      (hp : p ∈ placedAt place kinds) :
      ∃ k : CapabilityKind, k.placement ≠ .before Pass.setLevels.name ∧ k.pass = p := by
    obtain ⟨k, hk, rfl⟩ := List.mem_map.1 hp
    rw [List.mem_filter, decide_eq_true_iff] at hk
    exact ⟨k, hk.2 ▸ hplace, rfl⟩
  simp only [layoutPasses, List.mem_cons, List.mem_append] at h
  rcases h with rfl | hp | rfl | rfl | hp | rfl | rfl | rfl | rfl | hp | rfl | hp
  · exact .inl ⟨.setLevels, rfl⟩
  · exact .inr (hplaced (by decide) hp)
  · exact .inl ⟨.alignDocs, rfl⟩
  · exact .inl ⟨.setLevels, rfl⟩
  · exact .inr (hplaced (by decide) hp)
  · exact .inl ⟨.mergeUp, rfl⟩
  · exact .inl ⟨.setLevels, rfl⟩
  · exact .inl ⟨.mergeDown, rfl⟩
  · exact .inl ⟨.setLevels, rfl⟩
  · exact .inr (hplaced (by decide) hp)
  · exact .inl ⟨.absorb, rfl⟩
  · exact .inr (hplaced (by decide) hp)

variable {kinds : List CapabilityKind} {g : Grammar}

theorem closed_run {passes : List Pass} (hpasses : ∀ p ∈ passes, p ∈ commentPasses kinds)
    (hg : g.ByLines) {sections : List Section} (h : Closed sections) :
    Closed (Pipeline.run ⟨passes⟩ g sections) := by
  induction passes generalizing sections with
  | nil => exact h
  | cons p passes ih =>
    obtain ⟨k, _, hplace, rfl⟩ := exists_of_mem_commentPasses (hpasses p List.mem_cons_self)
    exact ih (fun q hq => hpasses q (List.mem_cons_of_mem _ hq)) (closed_pass hplace hg h)

theorem keepsLines_run {passes : List Pass} (hpasses : ∀ p ∈ passes, p ∈ layoutPasses kinds)
    (hg : g.ByLines) {sections : List Section} (h : Closed sections) :
    KeepsLines sections (Pipeline.run ⟨passes⟩ g sections) := by
  induction passes generalizing sections with
  | nil => exact .refl h
  | cons p passes ih =>
    have hp : KeepsLines sections (p.run g sections) := by
      obtain ⟨r, rfl⟩ | ⟨k, hplace, rfl⟩ :=
        exists_of_mem_layoutPasses (hpasses p List.mem_cons_self)
      · exact r.keepsLines_pass hg h
      · exact keepsLines_pass hplace hg h
    exact hp.trans (ih (fun q hq => hpasses q (List.mem_cons_of_mem _ hq)) hp.closed)

end CapabilityKind

namespace Language

open CapabilityKind (commentPasses layoutPasses)

variable {l : Language} {removed : List String}

theorem Staged.commentStage_eq (h : l.Staged removed) :
    l.pipeline.commentStage = ⟨(commentPasses l.capabilities).filter (·.name ∉ removed)⟩ := by
  have hcomment : ∀ p ∈ (commentPasses l.capabilities).filter (·.name ∉ removed),
      (p.name != Pass.setLevels.name) = true := by
    intro p hp
    rw [bne_iff_ne]
    exact CapabilityKind.name_ne_anchor (List.mem_filter.1 hp).1 .inlineComment
  have hlevels : decide (Pass.setLevels.name ∉ removed) = true := decide_eq_true h.keepsLevels
  rw [Pipeline.commentStage, h.passes_eq, CapabilityKind.assembled, List.filter_append,
    List.takeWhile_append_of_pos hcomment, layoutPasses, List.filter_cons, if_pos hlevels,
    List.takeWhile_cons_of_neg (by simp), List.append_nil]

theorem Staged.run_eq (h : l.Staged removed) (t : Text) :
    l.pipeline.run l.grammar [.ofCode t] =
      Pipeline.run ⟨(layoutPasses l.capabilities).filter (·.name ∉ removed)⟩ l.grammar
        (l.uncomment t) := by
  rw [uncomment, h.commentStage_eq, Pipeline.run, Pipeline.run, Pipeline.run, h.passes_eq,
    CapabilityKind.assembled, List.filter_append, List.foldl_append]

theorem Staged.closed_uncomment (h : l.Staged removed) (hg : l.grammar.ByLines) (t : Text) :
    Closed (l.uncomment t) := by
  rw [uncomment, h.commentStage_eq]
  exact CapabilityKind.closed_run (fun _ hp => (List.mem_filter.1 hp).1) hg
    (List.pairwise_singleton _ _)

theorem Staged.keepsLines_segment (h : l.Staged removed) (hg : l.grammar.ByLines) (t : Text) :
    KeepsLines (l.uncomment t) (l.segment t) := by
  have hpasses : ∀ p ∈ (layoutPasses l.capabilities).filter (·.name ∉ removed),
      p ∈ layoutPasses l.capabilities := fun _ hp => (List.mem_filter.1 hp).1
  have hlayout := CapabilityKind.keepsLines_run hpasses hg (h.closed_uncomment hg t)
  rw [segment, h.kind_eq]
  simp only [h.run_eq t]
  exact hlayout.trans (Section.keepsLines_keepFilled hlayout.closed)

end Language

end Marginalia
