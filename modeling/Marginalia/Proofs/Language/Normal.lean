import Marginalia.Proofs.Language.Capabilities
import Marginalia.Proofs.Section.Normal

/-! # Segmentations in normal form

Whatever the scope rules and the capabilities of a language, its pipeline attaches the decorators,
absorbs and at most annotates after that. So every segmentation comes out in normal form
(`exists_normal_segment`).
-/

namespace Marginalia

open Section (Follows Normal)

namespace CapabilityKind

/-- The passes that come before decorators are attached. -/
def earlyPasses (kinds : List CapabilityKind) : List Pass :=
  commentPasses kinds ++
  .setLevels :: (placedAt (.before Pass.alignDocs.name) kinds ++
  .alignDocs :: .setLevels :: (placedAt (.before Pass.mergeUp.name) kinds ++
  [.mergeUp, .setLevels, .mergeDown, .setLevels]))

theorem assembled_eq (kinds : List CapabilityKind) :
    assembled kinds = earlyPasses kinds ++ (placedAt (.before Pass.absorb.name) kinds ++
      ([.absorb] ++ placedAt (.after Pass.absorb.name) kinds)) := by
  simp [assembled, layoutPasses, earlyPasses]

end CapabilityKind

theorem Pipeline.run_append (xs ys : List Pass) (g : Grammar) (sections : List Section) :
    run ⟨xs ++ ys⟩ g sections = run ⟨ys⟩ g (run ⟨xs⟩ g sections) := List.foldl_append

namespace Language

variable {cs : List Capability} {l : Language}

theorem Equipped.mem_of_marker (h : l.Equipped cs) {marker : Text}
    (hmarker : marker ∈ (cs.filterMap (·.marker?)).getLast?) :
    .decoratorMerge ∈ l.capabilities := by
  obtain ⟨c, hc, hmarker⟩ := List.mem_filterMap.1 (List.mem_of_getLast? hmarker)
  have hkind : c.kind = .decoratorMerge := by
    cases c <;> first | rfl | cases hmarker
  rw [h.capabilities_eq, List.mem_eraseDups, ← hkind]
  exact List.mem_map_of_mem hc

theorem Equipped.settled_run (h : l.Equipped cs) {marker : Text}
    (hmarker : marker ∈ (cs.filterMap (·.marker?)).getLast?) (sections : List Section) :
    Decorator.Settled marker
      (Pipeline.run ⟨CapabilityKind.placedAt (.before Pass.absorb.name) l.capabilities⟩ l.grammar
        sections) := by
  have hpass : Pass.attachDecorators.run l.grammar sections =
      Decorator.attachAll marker sections := by
    simp only [Pass.attachDecorators, h.decoratorMarker_eq, Option.mem_def.1 hmarker]
  rw [CapabilityKind.decorators_placedAt h.nodup, if_pos (h.mem_of_marker hmarker)]
  change Decorator.Settled marker (Pass.attachDecorators.run l.grammar sections)
  rw [hpass]
  exact Decorator.settled_attachAll marker sections

/-- The passes after absorbing change nothing but annotations. -/
theorem Equipped.exists_run_links (h : l.Equipped cs) (sections : List Section) :
    ∃ f : Section → Table Text,
      Pipeline.run ⟨CapabilityKind.placedAt (.after Pass.absorb.name) l.capabilities⟩ l.grammar
          sections = sections.map fun s => { s with annotations := f s } := by
  rw [CapabilityKind.links_placedAt h.nodup]
  split
  · exact LinkRule.exists_annotate l.grammar.linkRules l.grammar.anchorHead sections
  · exact ⟨(·.annotations), (List.map_id sections).symm⟩

theorem Equipped.normal_segment (h : l.Equipped cs) (t : Text) :
    Normal (cs.filterMap (·.marker?)).getLast? (l.segment t) := by
  have hpipeline : l.pipeline = ⟨_⟩ := congrArg Pipeline.mk (h.assembled.passes_eq rfl)
  rw [CapabilityKind.assembled_eq] at hpipeline
  rw [segment, h.assembled.kind_eq, hpipeline]
  simp only [Pipeline.run_append]
  generalize Pipeline.run ⟨CapabilityKind.earlyPasses l.capabilities⟩ l.grammar [.ofCode t] = early
  have hsettled (marker : Text) (hmarker : marker ∈ (cs.filterMap (·.marker?)).getLast?) :=
    (h.settled_run hmarker early).absorb
  generalize Pipeline.run ⟨CapabilityKind.placedAt (.before Pass.absorb.name) l.capabilities⟩
    l.grammar early = attached at hsettled ⊢
  obtain ⟨f, hlinks⟩ := h.exists_run_links (Layout.absorb attached)
  change Normal _ (Section.keepFilled (Pipeline.run _ l.grammar (Layout.absorb attached)))
  rw [hlinks]
  apply Section.normal_keepFilled
  · rw [List.isChain_map]
    exact Layout.isChain_absorb attached
  · intro marker hmarker
    exact List.pairwise_map.2 (hsettled marker hmarker)

/-- The sections of a text are in normal form, in every language that is made by adding scope rules
and then capabilities. -/
theorem exists_normal_segment (name : Text) (rules : List ScopeRule) (cs : List Capability) :
    ∃ l, cs.foldlM addCapability (rules.foldl addScopeRule (new name)) = .ok l ∧
      ∀ t, Normal (cs.filterMap (·.marker?)).getLast? (l.segment t) := by
  have hrules : (rules.foldl addScopeRule (new name)).Equipped [] :=
    List.foldlRecOn (motive := Equipped []) _ _ (equipped_new name)
      fun _ h rule _ => h.addScopeRule rule
  obtain ⟨l, hl, hequipped⟩ := hrules.exists_foldlM cs
  exact ⟨l, hl, hequipped.normal_segment⟩

end Language

end Marginalia
