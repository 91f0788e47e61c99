import Mathlib.Data.List.Nodup
import Marginalia.Proofs.Language.Assembly

/-! # Languages with capabilities

Any capabilities can be added to a new language, in any order and number. The pipeline that comes of
it depends on the kinds alone, in the order in which they were first added
(`exists_addCapabilities`).
-/

namespace Marginalia

namespace Capability

/-- The paired comment that the capability brings. -/
def block? : Capability → Option BlockComment
  | blockComment comment => some comment
  | _ => none

/-- The decorator's marker that the capability brings. -/
def marker? : Capability → Option Text
  | decoratorMerge marker => some marker
  | _ => none

theorem blocks_configure (c : Capability) (g : Grammar) :
    (c.configure g).blocks = g.blocks ++ c.block?.toList := by
  cases c <;> simp [configure, block?]

theorem decoratorMarker_configure (c : Capability) (g : Grammar) :
    (c.configure g).decoratorMarker = c.marker?.or g.decoratorMarker := by
  cases c <;> rfl

end Capability

namespace CapabilityKind

/-- The pass of a kind of comments. -/
def commentName? : CapabilityKind → Option String
  | inlineComment => some "parse_inline"
  | blockComment => some "parse_block_comments"
  | docstring => some "parse_docstrings"
  | _ => none

/-- The pass of a kind of blocks; both kinds give theirs the name "split_by_scopes". -/
def splitPass? : CapabilityKind → Option Pass
  | indentBlock => some .splitByIndent
  | braceBlock => some .splitByKeyword
  | _ => none

/-- The names of the passes of a language, by the kinds of its capabilities in the order in which
they were added. -/
def passNames (kinds : List CapabilityKind) : List String :=
  kinds.filterMap commentName? ++
  ["set_sections_levels"] ++
  (if commentDecoration ∈ kinds then ["strip_comment_decoration"] else []) ++
  ["strip_docs_indentation", "set_sections_levels"] ++
  (kinds.filterMap splitPass?).map (fun _ => "split_by_scopes") ++
  ["merge_up", "set_sections_levels", "merge_down", "set_sections_levels"] ++
  (if decoratorMerge ∈ kinds then ["merge_decorators"] else []) ++
  ["absorb"] ++
  (if keywordLink ∈ kinds then ["add_links"] else [])

theorem map_placedAt {α : Type} {place : Placement} {f : Pass → α} {f? : CapabilityKind → Option α}
    (h : ∀ k, f? k = if k.placement = place then some (f k.pass) else none)
    (kinds : List CapabilityKind) : (placedAt place kinds).map f = kinds.filterMap f? := by
  induction kinds with
  | nil => rfl
  | cons k kinds ih =>
    rw [placedAt] at ih
    rw [placedAt, List.filter_cons, List.filterMap_cons, h k]
    by_cases hplace : k.placement = place
    · simpa [hplace] using ih
    · simpa [hplace] using ih

theorem splits_placedAt (kinds : List CapabilityKind) :
    placedAt (.before Pass.mergeUp.name) kinds = kinds.filterMap splitPass? := by
  have hsplits : (placedAt (.before Pass.mergeUp.name) kinds).map id =
      kinds.filterMap splitPass? := by
    apply map_placedAt
    intro k
    cases k <;> rfl
  rwa [List.map_id] at hsplits

theorem name_of_mem_splits {kinds : List CapabilityKind} {p : Pass}
    (h : p ∈ kinds.filterMap splitPass?) : p.name = "split_by_scopes" := by
  obtain ⟨k, _, hk⟩ := List.mem_filterMap.1 h
  cases k <;> cases hk <;> rfl

/-- A place with one kind of its own holds that kind's pass once, if it was added. -/
theorem placedAt_of_nodup {place : Placement} {k : CapabilityKind}
    (h : ∀ k', k'.placement = place ↔ k' = k) {kinds : List CapabilityKind} (hkinds : kinds.Nodup) :
    placedAt place kinds = if k ∈ kinds then [k.pass] else [] := by
  have hfilter : (kinds.filter fun k' => k'.placement = place) = kinds.filter (· == k) := by
    refine List.filter_congr fun k' _ => ?_
    rw [Bool.eq_iff_iff, decide_eq_true_iff, beq_iff_eq, h]
  rw [placedAt, hfilter, List.filter_beq, hkinds.count]
  split <;> rfl

theorem decorators_placedAt {kinds : List CapabilityKind} (h : kinds.Nodup) :
    placedAt (.before Pass.absorb.name) kinds =
      if decoratorMerge ∈ kinds then [.attachDecorators] else [] :=
  placedAt_of_nodup (k := decoratorMerge) (by intro k; cases k <;> decide) h

theorem links_placedAt {kinds : List CapabilityKind} (h : kinds.Nodup) :
    placedAt (.after Pass.absorb.name) kinds = if keywordLink ∈ kinds then [.addLinks] else [] :=
  placedAt_of_nodup (k := keywordLink) (by intro k; cases k <;> decide) h

theorem names_assembled {kinds : List CapabilityKind} (h : kinds.Nodup) :
    (assembled kinds).map (·.name) = passNames kinds := by
  have hcomments : (placedAt (.before Pass.setLevels.name) kinds).map (·.name) =
      kinds.filterMap commentName? := by
    apply map_placedAt
    intro k
    cases k <;> rfl
  have hsplits : (placedAt (.before Pass.mergeUp.name) kinds).map (·.name) =
      (kinds.filterMap splitPass?).map fun _ => "split_by_scopes" := by
    rw [splits_placedAt]
    exact List.map_congr_left fun p hp => name_of_mem_splits hp
  have hdecoration : placedAt (.before Pass.alignDocs.name) kinds =
      if commentDecoration ∈ kinds then [.stripDecoration] else [] :=
    placedAt_of_nodup (k := commentDecoration) (by intro k; cases k <;> decide) h
  simp only [assembled, commentPasses, layoutPasses, List.map_append, List.map_cons, hcomments,
    hsplits, hdecoration, decorators_placedAt h, links_placedAt h, apply_ite (List.map _)]
  simp only [passNames, List.append_assoc, List.cons_append, List.nil_append]
  rfl

/-- The passes that split are those of the kinds of blocks, in the order of the kinds. -/
theorem filter_assembled (kinds : List CapabilityKind) :
    (assembled kinds).filter (·.name == "split_by_scopes") = kinds.filterMap splitPass? := by
  have hother {place : Placement} (h : place ≠ .before Pass.mergeUp.name) :
      (placedAt place kinds).filter (·.name == "split_by_scopes") = [] := by
    rw [List.filter_eq_nil_iff]
    intro p hp
    obtain ⟨k, hk, rfl⟩ := List.mem_map.1 hp
    rw [List.mem_filter, decide_eq_true_iff] at hk
    cases k <;> first | decide | exact absurd hk.2.symm h
  have hsplits : (placedAt (.before Pass.mergeUp.name) kinds).filter
      (·.name == "split_by_scopes") = kinds.filterMap splitPass? := by
    rw [splits_placedAt, List.filter_eq_self]
    intro p hp
    rw [beq_iff_eq]
    exact name_of_mem_splits hp
  have hbase {p : Pass} (hp : p.name ≠ "split_by_scopes") (ps : List Pass) :
      (p :: ps).filter (·.name == "split_by_scopes") =
        ps.filter (·.name == "split_by_scopes") := by
    simp [hp]
  simp (disch := decide) only [assembled, commentPasses, layoutPasses, List.filter_append, hother,
    hbase, hsplits, List.nil_append, List.append_nil]

end CapabilityKind

namespace Language

/-- What a language has once the given capabilities are added to a new one. -/
structure Equipped (cs : List Capability) (l : Language) : Prop where
  assembled : l.Assembled .source
  capabilities_eq : l.capabilities = (cs.map (·.kind)).eraseDups
  nodup : l.capabilities.Nodup
  blocks_eq : l.grammar.blocks = cs.filterMap (·.block?)
  decoratorMarker_eq : l.grammar.decoratorMarker = (cs.filterMap (·.marker?)).getLast?

variable {cs : List Capability} {l : Language}

theorem equipped_new (name : Text) : (new name).Equipped [] :=
  ⟨assembled_new name, rfl, .nil, rfl, rfl⟩

theorem Equipped.addScopeRule (h : l.Equipped cs) (rule : ScopeRule) :
    (l.addScopeRule rule).Equipped cs :=
  ⟨⟨h.assembled.kind_eq, h.assembled.passes_eq⟩, h.capabilities_eq, h.nodup, h.blocks_eq,
    h.decoratorMarker_eq⟩

theorem exists_configure (l : Language) (c : Capability) :
    ∃ docExtensions,
      l.configure c = { l with grammar := c.configure l.grammar, docExtensions } := by
  cases c with
  | keywordLink rules head => exact exists_addDocExtension _ _
  | _ => exact ⟨l.docExtensions, rfl⟩

theorem of_install {k : CapabilityKind} {l' : Language} (h : l.install k = .ok l') :
    l'.grammar = l.grammar ∧
      (k ∈ l.capabilities ∧ l'.capabilities = l.capabilities ∨
        k ∉ l.capabilities ∧ l'.capabilities = l.capabilities ++ [k]) := by
  rw [install] at h
  split at h
  · rename_i hk
    cases h
    exact ⟨rfl, .inl ⟨hk, rfl⟩⟩
  · rename_i hk
    obtain ⟨pipeline, _, hl⟩ := exists_of_bind_eq_ok h
    cases hl
    exact ⟨rfl, .inr ⟨hk, rfl⟩⟩

/-- A kind is listed when it is added for the first time. -/
theorem eraseDups_snoc (kinds : List CapabilityKind) (k : CapabilityKind) :
    (kinds ++ [k]).eraseDups =
      if k ∈ kinds.eraseDups then kinds.eraseDups else kinds.eraseDups ++ [k] := by
  rw [List.eraseDups_append]
  by_cases hk : k ∈ kinds <;> simp [hk, List.removeAll, List.eraseDups_cons]

theorem Equipped.exists_addCapability (h : l.Equipped cs) (c : Capability) :
    ∃ l', l.addCapability c = .ok l' ∧ l'.Equipped (cs ++ [c]) := by
  obtain ⟨l', hl', hassembled⟩ := h.assembled.exists_addCapability c
  refine ⟨l', hl', ?_⟩
  obtain ⟨docExtensions, hconfigure⟩ := l.exists_configure c
  rw [addCapability, hconfigure] at hl'
  obtain ⟨hgrammar, hkinds⟩ := of_install hl'
  have hblocks : l'.grammar.blocks = (cs ++ [c]).filterMap (·.block?) := by
    rw [hgrammar, Capability.blocks_configure, h.blocks_eq, List.filterMap_append]
    cases hc : c.block? <;> simp [hc]
  have hmarker : l'.grammar.decoratorMarker = ((cs ++ [c]).filterMap (·.marker?)).getLast? := by
    rw [hgrammar, Capability.decoratorMarker_configure, h.decoratorMarker_eq,
      List.filterMap_append, List.getLast?_append]
    cases hc : c.marker? <;> simp [hc]
  have hdups : ((cs ++ [c]).map (·.kind)).eraseDups =
      if c.kind ∈ l.capabilities then l.capabilities else l.capabilities ++ [c.kind] := by
    rw [List.map_append, List.map_singleton, eraseDups_snoc, ← h.capabilities_eq]
  rcases hkinds with ⟨hold, hkinds⟩ | ⟨hnew, hkinds⟩
  · rw [if_pos hold] at hdups
    exact ⟨hassembled, hkinds.trans hdups.symm, hkinds ▸ h.nodup, hblocks, hmarker⟩
  · rw [if_neg hnew] at hdups
    refine ⟨hassembled, hkinds.trans hdups.symm, ?_, hblocks, hmarker⟩
    rw [hkinds, ← List.concat_eq_append]
    exact h.nodup.concat hnew

theorem Equipped.exists_foldlM (h : l.Equipped cs) (added : List Capability) :
    ∃ l', added.foldlM addCapability l = .ok l' ∧ l'.Equipped (cs ++ added) := by
  induction added generalizing cs l with
  | nil => exact ⟨l, rfl, by rwa [List.append_nil]⟩
  | cons c added ih =>
    obtain ⟨mid, hmid, hequipped⟩ := h.exists_addCapability c
    obtain ⟨l', hl', hequipped⟩ := ih hequipped
    rw [List.append_assoc, List.singleton_append] at hequipped
    refine ⟨l', ?_, hequipped⟩
    rw [List.foldlM_cons, hmid]
    exact hl'

/-- Every capability can be added. The kinds of all of them, in the order of their first addition,
give the pipeline; of two passes that split, the one of the kind added first runs first. -/
theorem exists_addCapabilities (name : Text) (cs : List Capability) :
    ∃ l, cs.foldlM addCapability (new name) = .ok l ∧
      l.pipeline.names = CapabilityKind.passNames (cs.map (·.kind)).eraseDups ∧
      l.pipeline.passes.filter (·.name == "split_by_scopes") =
        (cs.map (·.kind)).eraseDups.filterMap CapabilityKind.splitPass? ∧
      l.capabilities = (cs.map (·.kind)).eraseDups ∧
      l.grammar.blocks = cs.filterMap (·.block?) := by
  obtain ⟨l, hl, hequipped⟩ := (equipped_new name).exists_foldlM cs
  rw [List.nil_append] at hequipped
  have hpasses := hequipped.assembled.passes_eq rfl
  refine ⟨l, hl, ?_, ?_, hequipped.capabilities_eq, hequipped.blocks_eq⟩
  · rw [Pipeline.names, hpasses, CapabilityKind.names_assembled hequipped.nodup,
      hequipped.capabilities_eq]
  · rw [hpasses, CapabilityKind.filter_assembled, hequipped.capabilities_eq]

end Language

end Marginalia
