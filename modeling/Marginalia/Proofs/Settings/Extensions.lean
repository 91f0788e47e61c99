import Marginalia.Proofs.Table
import Marginalia.Settings

/-! # The table of extensions in settings

The entries of a document come into the settings under their normalized keys. Where the keys of
several entries become equal, the entry of the greatest key is kept (`exists_kept`).
-/

namespace Marginalia.Settings

open Marginalia.Language (normalizeExtension)

/-- The table of extensions as a document has it. -/
def extensionEntries? (t : Text) : Option Toml.Entries := do
  let document ← Toml.read? t
  asEntries (← Toml.Entries.find? document "extensions")

theorem asString_eq_some_iff {v : Toml.Value} {t : Text} : asString v = some t ↔ v = .string t := by
  cases v <;> simp [asString]

theorem mem_of_mapM_asString {entries : Toml.Entries} {pairs : List (Text × Text)}
    (h : entries.mapM (fun entry => (asString entry.2).map (entry.1, ·)) = some pairs)
    {key name : Text} : (key, name) ∈ pairs ↔ (key, .string name) ∈ entries := by
  induction entries generalizing pairs with
  | nil =>
    cases h
    simp
  | cons entry entries ih =>
    rw [List.mapM_cons] at h
    obtain ⟨first, hfirst, h⟩ := Option.bind_eq_some_iff.1 h
    obtain ⟨rest, hrest, h⟩ := Option.bind_eq_some_iff.1 h
    cases h
    obtain ⟨t, ht, rfl⟩ := Option.map_eq_some_iff.1 hfirst
    obtain ⟨key', v⟩ := entry
    obtain rfl := asString_eq_some_iff.1 ht
    simp [ih hrest]

theorem exists_asStrings {document : Toml.Entries} {v : Toml.Value} {s : Settings}
    (h : ofEntries? document = some s)
    (hfind : Toml.Entries.find? document "extensions" = some v) :
    ∃ extensions, asStrings v = some extensions ∧ s.extensions = normalizeKeys extensions := by
  have hlast {outputSuffix : Text} {language : Option Text}
      (h : ((asStrings v).bind fun extensions =>
        some { outputSuffix, language, extensions := normalizeKeys extensions }) = some s) :
      ∃ extensions, asStrings v = some extensions ∧ s.extensions = normalizeKeys extensions := by
    obtain ⟨extensions, hextensions, h⟩ := Option.bind_eq_some_iff.1 h
    cases h
    exact ⟨extensions, hextensions, rfl⟩
  -- The suffix and the language are read first, each from the document or by default.
  simp only [ofEntries?, hfind, Option.bind_eq_bind] at h
  split at h
  all_goals
    obtain ⟨_, _, h⟩ := Option.bind_eq_some_iff.1 h
    split at h
    all_goals
      obtain ⟨_, _, h⟩ := Option.bind_eq_some_iff.1 h
      exact hlast h

theorem exists_of_parse {t : Text} {s : Settings} {entries : Toml.Entries} (h : parse t = .ok s)
    (hentries : extensionEntries? t = some entries) :
    ∃ pairs, (∀ key name, (key, name) ∈ pairs ↔ (key, .string name) ∈ entries) ∧
      s.extensions = normalizeKeys (Table.ofList pairs) := by
  obtain ⟨document, hread, hentries⟩ := Option.bind_eq_some_iff.1 hentries
  obtain ⟨v, hfind, hentries⟩ := Option.bind_eq_some_iff.1 hentries
  have hs : ofEntries? document = some s := by
    rw [parse, hread, Option.bind_some] at h
    split at h
    · cases h
    · cases h
      assumption
  obtain ⟨extensions, hextensions, hs⟩ := exists_asStrings hs hfind
  rw [asStrings, hentries, Option.bind_eq_bind, Option.bind_some] at hextensions
  obtain ⟨pairs, hpairs, hextensions⟩ := Option.bind_eq_some_iff.1 hextensions
  cases hextensions
  exact ⟨pairs, fun _ _ => mem_of_mapM_asString hpairs, hs⟩

/-- Of the keys that become `key`, the greatest one gives the value. -/
theorem exists_of_find?_normalizeKeys {t : Table Text} {key name : Text}
    (h : (normalizeKeys t).find? key = some name) :
    ∃ kept, t.find? kept = some name ∧ normalizeExtension kept = key ∧
      ∀ other name', t.find? other = some name' → normalizeExtension other = key →
        ¬ kept < other := by
  rw [normalizeKeys, Table.find?_ofList, ← List.map_reverse, List.find?_map, Option.map_map,
    Option.map_eq_some_iff] at h
  obtain ⟨⟨kept, _⟩, hfind, rfl⟩ := h
  obtain ⟨hkey, front, back, hreverse, hfront⟩ := List.find?_eq_some_iff_append.1 hfind
  have hmem := List.mem_reverse.1 (List.mem_of_find?_eq_some hfind)
  refine ⟨kept, Table.mem_entries_iff.1 hmem, by simpa using hkey,
    fun other name' hother hnormal => ?_⟩
  have hother := List.mem_reverse.2 (Table.mem_entries_iff.2 hother)
  rw [hreverse, List.mem_append, List.mem_cons] at hother
  rcases hother with hother | heq | hother
  · simpa [hnormal] using hfront _ hother
  · cases heq
    exact List.lt_irrefl _
  · have hdescending := List.pairwise_reverse.2 t.ascending
    rw [hreverse, List.pairwise_append, List.pairwise_cons] at hdescending
    exact List.lt_asymm (hdescending.2.1.1 _ hother)

theorem exists_find?_normalizeKeys {t : Table Text} {key name : Text}
    (h : t.find? key = some name) :
    ∃ name', (normalizeKeys t).find? (normalizeExtension key) = some name' := by
  have hmem := List.mem_map_of_mem (f := fun entry : Text × Text =>
    (normalizeExtension entry.1, entry.2)) (Table.mem_entries_iff.2 h)
  exact Table.exists_find?_ofList hmem

/-- For each entry of a document, the settings keep the one of the greatest key among those with the
same normalized key. -/
theorem exists_kept {t : Text} {s : Settings} {entries : Toml.Entries} (h : parse t = .ok s)
    (hentries : extensionEntries? t = some entries) {key name : Text}
    (hmem : (key, .string name) ∈ entries) :
    ∃ kept name', (kept, .string name') ∈ entries ∧
      normalizeExtension kept = normalizeExtension key ∧
      (∀ other name'', (other, .string name'') ∈ entries →
        normalizeExtension other = normalizeExtension key → ¬ kept < other) ∧
      s.extensions.find? (normalizeExtension key) = some name' := by
  obtain ⟨pairs, hpairs, hextensions⟩ := exists_of_parse h hentries
  obtain ⟨_, hfind⟩ := Table.exists_find?_ofList ((hpairs key name).2 hmem)
  obtain ⟨name', hname'⟩ := exists_find?_normalizeKeys hfind
  obtain ⟨kept, hkept, hnormal, hgreatest⟩ := exists_of_find?_normalizeKeys hname'
  refine ⟨kept, name', (hpairs kept name').1 (Table.mem_of_find?_ofList hkept), hnormal,
    fun other name'' hother hsame => ?_, hextensions ▸ hname'⟩
  obtain ⟨_, hfindOther⟩ := Table.exists_find?_ofList ((hpairs other name'').2 hother)
  exact hgreatest other _ hfindOther hsame

end Marginalia.Settings
