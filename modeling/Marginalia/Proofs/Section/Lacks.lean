import Marginalia.Proofs.Comment.Extraction
import Marginalia.Proofs.Language.Stages

/-! # Characters that do not occur

No pass makes characters up, apart from newlines: what does not occur in any section before it does
not occur in one after it.
-/

namespace Marginalia

namespace Text

theorem mem_of_mem_upTo {t : Text} {pos : Nat} {c : Char} (h : c ∈ upTo pos t) : c ∈ t := by
  rw [← upTo_append_after pos t]
  exact List.mem_append_left _ h

theorem mem_of_mem_after {t : Text} {pos : Nat} {c : Char} (h : c ∈ after pos t) : c ∈ t := by
  rw [← upTo_append_after pos t]
  exact List.mem_append_right _ h

theorem mem_of_mem_slice {t : Text} {start stop : Nat} {c : Char} (h : c ∈ slice start stop t) :
    c ∈ t :=
  mem_of_mem_after (mem_of_mem_upTo h)

end Text

namespace Section

/-- A character that occurs neither in the code nor in the documentation. -/
structure Lacks (d : Char) (s : Section) : Prop where
  code : d ∉ s.code
  docs : d ∉ s.docs

variable {d : Char} {s t : Section} {sections : List Section}

theorem Lacks.merge (hs : s.Lacks d) (ht : t.Lacks d) : (s.merge t).Lacks d := by
  constructor
  · intro hmem
    rcases List.mem_append.1 hmem with hmem | hmem
    · exact hs.code hmem
    · exact ht.code hmem
  · intro hmem
    rcases List.mem_append.1 hmem with hmem | hmem
    · exact hs.docs hmem
    · exact ht.docs hmem

theorem lacks_of_divides {parts : List Section} (h : Scope.Divides s parts) (hs : s.Lacks d) :
    ∀ p ∈ parts, p.Lacks d := by
  intro p hp
  constructor
  · intro hmem
    exact hs.code (h.code ▸ List.mem_flatMap.2 ⟨p, hp, hmem⟩)
  · intro hmem
    exact hs.docs (h.docs ▸ List.mem_flatMap.2 ⟨p, hp, hmem⟩)

theorem lacks_splitAll {cut : Section → List Section} (hcut : ∀ s, Scope.Divides s (cut s))
    (h : ∀ s ∈ sections, s.Lacks d) : ∀ p ∈ Scope.splitAll cut sections, p.Lacks d := by
  intro p hp
  obtain ⟨s, hs, hp⟩ := List.mem_flatMap.1 hp
  exact lacks_of_divides (Scope.divides_pieces hcut _ s) (h s hs) p hp

end Section

theorem Span.Quotes.not_mem {code : Text} {span : Span} (h : span.Quotes code) {d : Char}
    (hd : d ∉ code) : d ∉ span.docs := by
  obtain ⟨ranges, _, hdocs⟩ := h
  rw [hdocs]
  intro hmem
  obtain ⟨r, _, hmem⟩ := List.mem_flatMap.1 hmem
  exact hd (Text.mem_of_mem_slice hmem)

theorem Span.not_mem_gaps {code : Text} {d : Char} (hd : d ∉ code) (spans : List Span) :
    ∀ gap ∈ gaps code spans, d ∉ gap := by
  induction spans with
  | nil =>
    intro gap hgap
    cases hgap
  | cons span rest ih =>
    intro gap hgap hmem
    cases rest with
    | nil =>
      obtain rfl := List.mem_singleton.1 hgap
      exact hd (Text.mem_of_mem_slice hmem)
    | cons next rest =>
      rcases List.mem_cons.1 hgap with rfl | hgap
      · exact hd (Text.mem_of_mem_slice hmem)
      · exact ih gap hgap hmem

namespace Section

theorem lacks_partsBy {finish : Text → Text} {d : Char} (hfinish : ∀ t, d ∉ t → d ∉ finish t)
    {s : Section} (hs : s.Lacks d) {spans : List Span}
    (hspans : ∀ span ∈ spans, span.Quotes s.code) :
    ∀ p ∈ s.partsBy finish spans, p.Lacks d := by
  cases spans with
  | nil =>
    intro p hp
    rwa [List.mem_singleton.1 hp]
  | cons span rest =>
    intro p hp
    rcases List.mem_cons.1 hp with rfl | hp
    · exact ⟨fun hmem => hs.code (Text.mem_of_mem_upTo hmem), hs.docs⟩
    · obtain ⟨⟨found, gap⟩, hpair, hp⟩ := List.mem_flatMap.1 hp
      obtain ⟨hfound, hgap⟩ := List.of_mem_zip hpair
      rcases List.mem_cons.1 hp with rfl | hp
      · exact ⟨List.not_mem_nil, hfinish _ ((hspans found hfound).not_mem hs.code)⟩
      · split at hp
        · cases hp
        · rw [List.mem_singleton.1 hp]
          exact ⟨Span.not_mem_gaps hs.code _ gap hgap, List.not_mem_nil⟩

end Section

namespace Docstring

theorem mem_of_mem_unescape {t : Text} {c : Char} (h : c ∈ unescape t) : c ∈ t := by
  fun_induction unescape t with
  | case1 => cases h
  | case2 => cases h
  | case3 e t ih =>
    rcases List.mem_cons.1 h with rfl | h
    · simp
    · simp [ih h]
  | case4 e t _ _ ih =>
    rcases List.mem_cons.1 h with rfl | h
    · simp
    · simp [ih h]

theorem mem_of_mem_dropQuote {t : Text} {c : Char} (h : c ∈ dropQuote t) : c ∈ t := by
  induction t with
  | nil => cases h
  | cons e t ih =>
    rw [dropQuote] at h
    split at h
    · exact List.mem_cons_of_mem _ h
    · rcases List.mem_cons.1 h with rfl | h
      · exact List.mem_cons_self
      · exact List.mem_cons_of_mem _ (ih h)

theorem not_mem_unquote {t : Text} {c : Char} (h : c ∉ t) : c ∉ unquote t := fun hmem =>
  h ((List.dropWhile_sublist _).subset (mem_of_mem_dropQuote (mem_of_mem_unescape hmem)))

end Docstring

theorem Extraction.lacks_run {d : Char} (e : Extraction) (g : Grammar) {sections : List Section}
    (h : ∀ s ∈ sections, s.Lacks d) : ∀ p ∈ e.pass.run g sections, p.Lacks d := by
  have hfinish : ∀ t, d ∉ t → d ∉ e.finish t := by
    intro t ht
    cases e with
    | docstrings => exact Docstring.not_mem_unquote ht
    | _ => exact ht
  intro p hp
  rw [e.run_eq] at hp
  obtain ⟨s, hs, hp⟩ := List.mem_flatMap.1 hp
  exact Section.lacks_partsBy hfinish (h s hs) (fun _ => quotes_of_mem_found) p hp

theorem Layout.not_mem_alignText {docs : Text} {d : Char} (h : d ∉ docs) : d ∉ alignText docs := by
  intro hmem
  obtain ⟨part, hpart, hmem⟩ := List.mem_flatten.1 hmem
  obtain ⟨line, hline, rfl⟩ := List.mem_map.1 hpart
  refine h ?_
  rw [← Text.flatten_lines docs]
  refine List.mem_flatten.2 ⟨line, hline, ?_⟩
  cases hrest : Text.afterHead? (Text.indent docs) line with
  | none => simpa [hrest] using hmem
  | some rest =>
    rw [hrest, Option.getD_some] at hmem
    rw [Text.afterHead?_eq_some_iff.1 hrest]
    exact List.mem_append_right _ hmem

theorem Layout.lacks_absorbInto {d : Char} (hd : d ≠ '\n') (s t : Section) (hs : s.Lacks d)
    (ht : t.Lacks d) : (absorbInto s t).Lacks d := by
  refine ⟨fun hmem => ?_, hs.docs⟩
  simp only [absorbInto, List.mem_append] at hmem
  rcases hmem with (hmem | hmem) | hmem
  · exact hs.code hmem
  · split at hmem
    · cases hmem
    · exact hd (List.mem_singleton.1 hmem)
  · exact ht.code hmem

open Section (Lacks forall_mem_foldAdjacent lacks_splitAll)

theorem Section.lacks_of_map {d : Char} {xs ys : List Section}
    (hcode : ys.map (·.code) = xs.map (·.code)) (hdocs : ys.map (·.docs) = xs.map (·.docs))
    (h : ∀ s ∈ xs, s.Lacks d) : ∀ s ∈ ys, s.Lacks d := by
  intro s hs
  constructor
  · have hmem : s.code ∈ ys.map (·.code) := List.mem_map_of_mem hs
    rw [hcode] at hmem
    obtain ⟨t, ht, heq⟩ := List.mem_map.1 hmem
    exact heq ▸ (h t ht).code
  · have hmem : s.docs ∈ ys.map (·.docs) := List.mem_map_of_mem hs
    rw [hdocs] at hmem
    obtain ⟨t, ht, heq⟩ := List.mem_map.1 hmem
    exact heq ▸ (h t ht).docs

theorem Rearrangement.lacks_run {d : Char} (hd : d ≠ '\n') (r : Rearrangement) (g : Grammar)
    {sections : List Section} (h : ∀ s ∈ sections, s.Lacks d) :
    ∀ p ∈ r.pass.run g sections, p.Lacks d := by
  have hmerge (s t : Section) (hs : s.Lacks d) (ht : t.Lacks d) : (s.merge t).Lacks d := hs.merge ht
  have hscoped (s t : Section) (scope : Option Text) (hs : s.Lacks d) (ht : t.Lacks d) :
      ({ s.merge t with scope } : Section).Lacks d :=
    ⟨(hmerge s t hs ht).code, (hmerge s t hs ht).docs⟩
  cases r with
  | setLevels =>
    exact Section.lacks_of_map (Layout.map_code_levelsFrom 0 _) (Layout.map_docs_levelsFrom 0 _) h
  | alignDocs =>
    intro p hp
    obtain ⟨s, hs, rfl⟩ := List.mem_map.1 hp
    exact ⟨(h s hs).code, Layout.not_mem_alignText (h s hs).docs⟩
  | splitByIndent => exact lacks_splitAll (Scope.divides_cutAtDedent g.scopeRules) h
  | splitByKeyword => exact lacks_splitAll (Scope.divides_cutAtScope g.scopeRules) h
  | mergeUp => exact forall_mem_foldAdjacent (fun s t => hscoped s t _) h
  | mergeDown => exact forall_mem_foldAdjacent hmerge h
  | attachDecorators =>
    simp only [pass, Pass.attachDecorators]
    split
    · exact h
    · exact forall_mem_foldAdjacent (fun s t => hscoped s t _) h
  | absorb => exact forall_mem_foldAdjacent (Layout.lacks_absorbInto hd) h
  | addLinks =>
    exact Section.lacks_of_map (LinkRule.map_code_annotate _ _ _) (LinkRule.map_docs_annotate _ _ _)
      h
  | keepFilled => exact fun p hp => h p (List.mem_filter.1 hp).1

end Marginalia
