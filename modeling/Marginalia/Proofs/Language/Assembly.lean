import Marginalia.Language.Outline
import Marginalia.Proofs.Except

/-! # How pipelines are put together

Whatever capabilities a language has, its pipeline is the base pipeline with their passes at fixed
places, at each place in the order in which the kinds were first added (`passes_of_build`).
-/

namespace Marginalia

namespace Pipeline

theorem insertPass_cons {placement : Placement} {pass p : Pass} (h : p.name ≠ placement.anchor)
    (ys : List Pass) :
    insertPass placement pass (p :: ys) = (insertPass placement pass ys).map (p :: ·) := by
  cases placement <;> rw [insertPass, if_neg h]

theorem insertPass_before {placement : Placement} {pass p : Pass} (h : placement = .before p.name)
    (ys : List Pass) : insertPass placement pass (p :: ys) = some (pass :: p :: ys) := by
  rw [h, insertPass]
  exact if_pos rfl

theorem insertPass_after {placement : Placement} {pass p : Pass} (h : placement = .after p.name)
    (ys : List Pass) : insertPass placement pass (p :: ys) = some (p :: pass :: ys) := by
  rw [h, insertPass]
  exact if_pos rfl

theorem insertPass_append {placement : Placement} {pass : Pass} {xs : List Pass}
    (h : ∀ p ∈ xs, p.name ≠ placement.anchor) (ys : List Pass) :
    insertPass placement pass (xs ++ ys) = (insertPass placement pass ys).map (xs ++ ·) := by
  induction xs with
  | nil => simp
  | cons p xs ih =>
    have ih := ih fun q hq => h q (List.mem_cons_of_mem _ hq)
    rw [List.cons_append, insertPass_cons (h p List.mem_cons_self), ih, Option.map_map]
    rfl

end Pipeline

namespace CapabilityKind

def placedAt (place : Placement) (kinds : List CapabilityKind) : List Pass :=
  (kinds.filter fun k => k.placement = place).map pass

/-- The passes that take comments out, in the order in which the kinds were added. -/
def commentPasses (kinds : List CapabilityKind) : List Pass :=
  placedAt (.before Pass.setLevels.name) kinds

/-- The passes from the first one that sets levels on. -/
def layoutPasses (kinds : List CapabilityKind) : List Pass :=
  .setLevels :: (placedAt (.before Pass.alignDocs.name) kinds ++
  .alignDocs :: .setLevels :: (placedAt (.before Pass.mergeUp.name) kinds ++
  .mergeUp :: .setLevels :: .mergeDown :: .setLevels ::
  (placedAt (.before Pass.absorb.name) kinds ++
  .absorb :: placedAt (.after Pass.absorb.name) kinds)))

def assembled (kinds : List CapabilityKind) : List Pass := commentPasses kinds ++ layoutPasses kinds

theorem placedAt_append_of_eq {place : Placement} {k : CapabilityKind} (h : k.placement = place)
    (kinds : List CapabilityKind) :
    placedAt place (kinds ++ [k]) = placedAt place kinds ++ [k.pass] := by
  simp [placedAt, h]

theorem placedAt_append_of_ne {place : Placement} {k : CapabilityKind} (h : k.placement ≠ place)
    (kinds : List CapabilityKind) : placedAt place (kinds ++ [k]) = placedAt place kinds := by
  simp [placedAt, h]

theorem placedAt_eq_nil {place : Placement} {kinds : List CapabilityKind}
    (h : ∀ k ∈ kinds, k.placement ≠ place) : placedAt place kinds = [] := by
  rw [placedAt, List.map_eq_nil_iff, List.filter_eq_nil_iff]
  intro k hk
  simpa using h k hk

theorem name_ne_anchor {place : Placement} {kinds : List CapabilityKind} {p : Pass}
    (hp : p ∈ placedAt place kinds) (k : CapabilityKind) : p.name ≠ k.placement.anchor := by
  obtain ⟨kind, _, rfl⟩ := List.mem_map.1 hp
  cases kind <;> cases k <;> decide

theorem insertPass_placedAt (place : Placement) (kinds : List CapabilityKind) (k : CapabilityKind)
    (ys : List Pass) :
    Pipeline.insertPass k.placement k.pass (placedAt place kinds ++ ys) =
      (Pipeline.insertPass k.placement k.pass ys).map (placedAt place kinds ++ ·) :=
  Pipeline.insertPass_append (fun _ hp => name_ne_anchor hp k) ys

theorem insertPass_assembled {kinds : List CapabilityKind} {k : CapabilityKind} (h : k ∉ kinds) :
    Pipeline.insertPass k.placement k.pass (assembled kinds) =
      some (assembled (kinds ++ [k])) := by
  cases k with
  | keywordLink =>
    -- Nothing stands behind the last pass of the base pipeline yet.
    have hlinks : placedAt (.after Pass.absorb.name) kinds = [] := by
      refine placedAt_eq_nil fun k hk hplace => h ?_
      cases k <;> first | exact hk | exact absurd hplace (by decide)
    simp (disch := decide) only [assembled, commentPasses, layoutPasses, placedAt_append_of_eq,
      placedAt_append_of_ne, insertPass_placedAt, Pipeline.insertPass_cons,
      Pipeline.insertPass_after, Option.map_some, hlinks, List.nil_append]
  | _ =>
    simp (disch := decide) only [assembled, commentPasses, layoutPasses, placedAt_append_of_eq,
      placedAt_append_of_ne, insertPass_placedAt, Pipeline.insertPass_cons,
      Pipeline.insertPass_before, Option.map_some, List.append_assoc, List.cons_append,
      List.nil_append]

end CapabilityKind

namespace Language

/-- The language is of the given kind; if that is source code, its pipeline is the one of its
capabilities. -/
structure Assembled (kind : LanguageKind) (l : Language) : Prop where
  kind_eq : l.kind = kind
  passes_eq : kind = .source → l.pipeline.passes = CapabilityKind.assembled l.capabilities

theorem assembled_new (name : Text) : (new name).Assembled .source := ⟨rfl, fun _ => rfl⟩

theorem assembled_prose (name : Text) : (prose name).Assembled .prose := ⟨rfl, nofun⟩

theorem exists_addDocExtension (l : Language) (e : DocExtension) :
    ∃ docExtensions, l.addDocExtension e = { l with docExtensions } := by
  rw [addDocExtension]
  split
  · exact ⟨l.docExtensions, rfl⟩
  · exact ⟨l.docExtensions ++ [e], rfl⟩

variable {kind : LanguageKind} {l l' : Language}

theorem Assembled.addDocExtension (h : l.Assembled kind) (e : DocExtension) :
    (l.addDocExtension e).Assembled kind := by
  obtain ⟨docExtensions, hl⟩ := l.exists_addDocExtension e
  rw [hl]
  exact ⟨h.kind_eq, h.passes_eq⟩

theorem Assembled.configure (h : l.Assembled kind) (c : Capability) :
    (l.configure c).Assembled kind := by
  have hgrammar : ({ l with grammar := c.configure l.grammar } : Language).Assembled kind :=
    ⟨h.kind_eq, h.passes_eq⟩
  cases c with
  | keywordLink rules head => exact hgrammar.addDocExtension _
  | _ => exact hgrammar

/-- The pass of a capability always finds its place in the pipeline of a source language. -/
theorem Assembled.exists_install (h : l.Assembled .source) (k : CapabilityKind) :
    ∃ l', l.install k = .ok l' ∧ l'.Assembled .source := by
  rw [install]
  split
  · exact ⟨l, rfl, h⟩
  · rename_i hnew
    rw [Pipeline.place, h.passes_eq rfl, CapabilityKind.insertPass_assembled hnew]
    exact ⟨_, rfl, h.kind_eq, fun _ => rfl⟩

theorem Assembled.exists_addCapability (h : l.Assembled .source) (c : Capability) :
    ∃ l', l.addCapability c = .ok l' ∧ l'.Assembled .source :=
  (h.configure c).exists_install c.kind

theorem exists_of_install {k : CapabilityKind} (h : l.install k = .ok l') :
    ∃ pipeline capabilities, l' = { l with pipeline, capabilities } := by
  rw [install] at h
  split at h
  · cases h
    exact ⟨l.pipeline, l.capabilities, rfl⟩
  · obtain ⟨pipeline, _, hl⟩ := exists_of_bind_eq_ok h
    cases hl
    exact ⟨pipeline, _, rfl⟩

theorem kind_of_install {k : CapabilityKind} (h : l.install k = .ok l') : l'.kind = l.kind := by
  obtain ⟨pipeline, capabilities, rfl⟩ := exists_of_install h
  rfl

theorem Assembled.of_addCapability {c : Capability} (h : l.Assembled kind)
    (hadd : l.addCapability c = .ok l') : l'.Assembled kind := by
  cases kind with
  | source =>
    obtain ⟨added, hadded, hassembled⟩ := h.exists_addCapability c
    rw [hadd] at hadded
    cases hadded
    exact hassembled
  | prose => exact ⟨(kind_of_install hadd).trans (h.configure c).kind_eq, nofun⟩

theorem of_removePass {name : String} (h : l.removePass name = .ok l') :
    l' = { l with pipeline := ⟨l.pipeline.passes.filter (·.name != name)⟩ } := by
  obtain ⟨pipeline, hremove, hl⟩ := exists_of_bind_eq_ok h
  rw [Pipeline.remove] at hremove
  split at hremove
  · cases hremove
    cases hl
    rfl
  · cases hremove

theorem of_foldlM_removePass {removed : List String} (h : removed.foldlM removePass l = .ok l') :
    l' = { l with pipeline := ⟨l.pipeline.passes.filter (·.name ∉ removed)⟩ } := by
  induction removed generalizing l with
  | nil =>
    cases h
    have hkept : l'.pipeline.passes.filter (·.name ∉ ([] : List String)) = l'.pipeline.passes := by
      simp
    rw [hkept]
  | cons name removed ih =>
    rw [List.foldlM_cons] at h
    obtain ⟨mid, hmid, hrest⟩ := exists_of_bind_eq_ok h
    rw [ih hrest, of_removePass hmid, List.filter_filter]
    have hkept (p : Pass) :
        (decide (p.name ∉ removed) && p.name != name) = decide (p.name ∉ name :: removed) := by
      by_cases hp : p.name = name <;> simp [hp]
    simp only [hkept]

end Language

namespace Outline

theorem assembled_blank (o : Outline) : o.blank.Assembled o.kind := by
  rw [blank]
  refine List.foldlRecOn (motive := Language.Assembled o.kind) _ _ ?_ fun l hl s _ => ⟨hl.1, hl.2⟩
  refine List.foldlRecOn (motive := Language.Assembled o.kind) _ _ ?_ fun l hl s _ => ⟨hl.1, hl.2⟩
  refine List.foldlRecOn (motive := Language.Assembled o.kind) _ _ ?_ fun l hl s _ => ⟨hl.1, hl.2⟩
  cases o.kind with
  | source => exact Language.assembled_new o.name
  | prose => exact Language.assembled_prose o.name

/-- A language is built by its capabilities, then some passes are taken away. -/
theorem exists_of_build {o : Outline} {l : Language} (h : o.build = .ok l) :
    ∃ whole : Language, whole.Assembled o.kind ∧
      l = { whole with pipeline := ⟨whole.pipeline.passes.filter (·.name ∉ o.removed)⟩ } := by
  obtain ⟨rules, _, h⟩ := exists_of_bind_eq_ok h
  obtain ⟨featured, hfeatured, h⟩ := exists_of_bind_eq_ok h
  refine ⟨_, ?_, Language.of_foldlM_removePass h⟩
  refine List.foldlRecOn (motive := Language.Assembled o.kind) _ _ ?_
    fun l hl e _ => hl.addDocExtension e
  refine of_foldlM_eq_ok ?_ ?_ hfeatured
  · intro l feature l' hl hstep
    obtain ⟨c, _, hadd⟩ := exists_of_bind_eq_ok hstep
    exact hl.of_addCapability hadd
  · exact List.foldlRecOn (motive := Language.Assembled o.kind) _ _ o.assembled_blank
      fun l hl rule _ => ⟨hl.1, hl.2⟩

theorem kind_of_build {o : Outline} {l : Language} (h : o.build = .ok l) : l.kind = o.kind := by
  obtain ⟨whole, hwhole, rfl⟩ := exists_of_build h
  exact hwhole.kind_eq

theorem passes_of_build {o : Outline} {l : Language} (h : o.build = .ok l)
    (hkind : o.kind = .source) :
    l.pipeline.passes =
      (CapabilityKind.assembled l.capabilities).filter (·.name ∉ o.removed) := by
  obtain ⟨whole, hwhole, rfl⟩ := exists_of_build h
  rw [hwhole.passes_eq hkind]

end Outline

end Marginalia
