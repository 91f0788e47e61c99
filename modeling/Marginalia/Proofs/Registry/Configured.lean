import Marginalia.Proofs.Registry.Faithful
import Marginalia.Proofs.Settings.Extensions

/-! # Extensions that come from settings

Giving an extension to a language keeps the owners of all extensions and what names stand for
(`Indexed.keeps_aliasExtension`), so every extension that the settings keep is honoured. An entry of
the document is lost exactly if another one with the same normalized key names another language
(`honoured_iff`).
-/

namespace Marginalia

open Marginalia.Language (normalizeExtension)

namespace Language

/-- Both languages go by the same names. -/
structure SameNames (l l' : Language) : Prop where
  name_eq : l'.name = l.name
  aliases_eq : l'.aliases = l.aliases

theorem SameNames.answersTo_eq {l l' : Language} (h : l.SameNames l') (name : Text) :
    l'.answersTo name = l.answersTo name := by
  rw [answersTo, answersTo, h.name_eq, h.aliases_eq]

theorem sameNames_gain (l : Language) (ext : Text) : l.SameNames (l.gain ext) := by
  rw [gain]
  split
  · exact ⟨rfl, rfl⟩
  · exact ⟨rfl, rfl⟩

end Language

namespace Registry

variable {r r' mid : Registry} {l : Language} {ext name : Text}

/-- A name stands for the language registered under it, or else for the one of the least name among
those that answer to it. -/
theorem byName?_eq_some_iff :
    r.byName? name = some l ↔
      r.languages.find? name = some l ∨
        r.languages.find? name = none ∧ l.answersTo name = true ∧
          ∃ key, r.languages.find? key = some l ∧
            ∀ key' l', r.languages.find? key' = some l' → key' < key →
              l'.answersTo name = false := by
  rw [byName?]
  cases r.languages.find? name with
  | none => simp [Table.find?_values_eq_some_iff]
  | some found => simp

/-- Extensions keep their owners, and names go on standing for the same languages. -/
structure Keeps (r r' : Registry) : Prop where
  owners : ∀ ext name, r.owners.find? ext = some name → r'.owners.find? ext = some name
  names : ∀ name l, r.byName? name = some l → ∃ l', r'.byName? name = some l' ∧ l'.name = l.name

theorem Keeps.refl (r : Registry) : r.Keeps r := ⟨fun _ _ h => h, fun _ l h => ⟨l, h, rfl⟩⟩

theorem Keeps.trans (h : r.Keeps mid) (h' : mid.Keeps r') : r.Keeps r' := by
  refine ⟨fun ext name howner => h'.owners ext name (h.owners ext name howner),
    fun name l hl => ?_⟩
  obtain ⟨l', hl', hname'⟩ := h.names name l hl
  obtain ⟨l'', hl'', hname''⟩ := h'.names name l' hl'
  exact ⟨l'', hl'', hname''.trans hname'⟩

theorem Updates.owners_of_some {exts : List Text} (h : r.Updates l exts r')
    (howner : r.owners.find? ext = some name) : r'.owners.find? ext = some name := by
  rw [h.owners_eq]
  split
  · rename_i hext
    rw [h.free ext hext name howner]
  · exact howner

/-- Where only extensions change, names stand for the same languages. -/
theorem exists_byName? (hto : ∀ key l, r.languages.find? key = some l →
      ∃ l', r'.languages.find? key = some l' ∧ l.SameNames l')
    (hfrom : ∀ key l', r'.languages.find? key = some l' →
      ∃ l, r.languages.find? key = some l ∧ l.SameNames l')
    (h : r.byName? name = some l) : ∃ l', r'.byName? name = some l' ∧ l'.name = l.name := by
  -- A registered name stays so; among the others the language of the least name stays the first.
  rcases byName?_eq_some_iff.1 h with hfind | ⟨hnone, hanswers, key, hkey, hleast⟩
  · obtain ⟨l', hfind', hsame⟩ := hto name l hfind
    exact ⟨l', byName?_eq_some_iff.2 (.inl hfind'), hsame.name_eq⟩
  · obtain ⟨l', hkey', hsame⟩ := hto key l hkey
    have hnone' : r'.languages.find? name = none := by
      rw [Option.eq_none_iff_forall_ne_some]
      intro other hother
      obtain ⟨_, hfind, _⟩ := hfrom name other hother
      rw [hnone] at hfind
      cases hfind
    refine ⟨l', byName?_eq_some_iff.2 (.inr ⟨hnone', ?_, key, hkey', ?_⟩), hsame.name_eq⟩
    · rw [hsame.answersTo_eq, hanswers]
    · intro other lother hother hlt
      obtain ⟨lold, hold, hsameOther⟩ := hfrom other lother hother
      rw [hsameOther.answersTo_eq]
      exact hleast other lold hold hlt

theorem Indexed.keeps_aliasExtension (h : r.Indexed) (hok : r.aliasExtension ext name = .ok r') :
    r.Keeps r' := by
  obtain ⟨found, _, hfind, hupdates⟩ := h.exists_of_aliasExtension hok
  have hsame := found.sameNames_gain (normalizeExtension ext)
  refine ⟨fun _ _ => hupdates.owners_of_some, fun other l hl => exists_byName? ?_ ?_ hl⟩
  · intro key l hkey
    rw [hupdates.languages_eq, Language.name_gain]
    split
    · rename_i hname
      rw [← hname, hfind] at hkey
      cases hkey
      exact ⟨_, rfl, hsame⟩
    · exact ⟨l, hkey, rfl, rfl⟩
  · intro key l' hkey
    rw [hupdates.languages_eq, Language.name_gain] at hkey
    split at hkey
    · rename_i hname
      cases hkey
      exact ⟨found, hname ▸ hfind, hsame⟩
    · exact ⟨l', hkey, rfl, rfl⟩

/-- The name stands for a language that the extension belongs to. -/
def Owns (r : Registry) (name ext : Text) : Prop :=
  ∃ l, r.byName? name = some l ∧ r.owners.find? ext = some l.name

theorem Keeps.owns (h : r.Keeps r') (howns : r.Owns name ext) : r'.Owns name ext := by
  obtain ⟨l, hl, howner⟩ := howns
  obtain ⟨l', hl', hname⟩ := h.names name l hl
  exact ⟨l', hl', hname ▸ h.owners ext l.name howner⟩

theorem Indexed.owns_aliasExtension (h : r.Indexed) (hok : r.aliasExtension ext name = .ok r') :
    r'.Owns name (normalizeExtension ext) := by
  obtain ⟨found, hfound, _, hupdates⟩ := h.exists_of_aliasExtension hok
  obtain ⟨l, hl, hname⟩ := (h.keeps_aliasExtension hok).names name found hfound
  refine ⟨l, hl, ?_⟩
  rw [hupdates.owners_eq, if_pos (List.mem_singleton_self _), hname, Language.name_gain]

/-- Extensions given one after the other all stay given. -/
theorem Indexed.owns_of_foldlM {entries : List (Text × Text)} (h : r.Indexed)
    (hok : entries.foldlM (fun r entry => r.aliasExtension entry.1 entry.2) r = .ok r') :
    r.Keeps r' ∧ ∀ entry ∈ entries, r'.Owns entry.2 (normalizeExtension entry.1) := by
  induction entries generalizing r with
  | nil =>
    cases hok
    exact ⟨.refl _, nofun⟩
  | cons entry entries ih =>
    rw [List.foldlM_cons] at hok
    obtain ⟨mid, halias, hok⟩ := exists_of_bind_eq_ok hok
    obtain ⟨hkeeps, howns⟩ := ih (h.of_apply (.give entry.1 entry.2) halias) hok
    refine ⟨(h.keeps_aliasExtension halias).trans hkeeps, ?_⟩
    rw [List.forall_mem_cons]
    exact ⟨hkeeps.owns (h.owns_aliasExtension halias), howns⟩

theorem owns_ofSettings {s : Settings} (hr : ofSettings s = .ok r)
    (hname : s.extensions.find? ext = some name) : r.Owns name (normalizeExtension ext) := by
  obtain ⟨base, hbase, hr⟩ := exists_of_bind_eq_ok hr
  have hindexed : base.Indexed := by
    obtain ⟨ls, _, hbase⟩ := exists_of_bind_eq_ok hbase
    exact of_foldlM_eq_ok (fun _ l _ h hadd => h.of_apply (.add l) hadd) indexed_empty hbase
  exact (hindexed.owns_of_foldlM hr).2 (ext, name) (Table.mem_entries_iff.2 hname)

/-- An extension that can stand in a file name as a whole. -/
structure Plain (ext : Text) : Prop where
  ne_nil : ext ≠ []
  noDot : '.' ∉ ext
  noSlash : '/' ∉ ext

theorem Plain.extension? (h : Plain ext) : Path.extension? ("x." ++ ext) = some ext := by
  have hslash : '/' ∉ (("x." : Text) ++ ext) := by simp [h.noSlash]
  refine Path.extension?_eq_some_iff.2 ⟨h.noDot, ['x'], nofun, ?_⟩
  exact Path.fileName?_of_notMem hslash nofun nofun nofun

/-- Files with the extension, normalized, are taken for the language of the name. -/
def Honoured (r : Registry) (ext name : Text) : Prop :=
  ∃ l, r.byName? name = some l ∧ r.detect? ("x." ++ normalizeExtension ext) = some l

theorem Indexed.honoured (h : r.Indexed) (hplain : Plain (normalizeExtension ext))
    (howns : r.Owns name (normalizeExtension ext)) : r.Honoured ext name := by
  obtain ⟨l, hl, howner⟩ := howns
  refine ⟨l, hl, detect?_eq_some_iff.2 ⟨_, l.name, hplain.extension?, ?_, h.find?_of_byName? hl⟩⟩
  rw [normalizeExtension, Text.toLower_toLower]
  exact howner

theorem exists_honoured {t : Text} {s : Settings} {entries : Toml.Entries} {key : Text}
    (hparse : Settings.parse t = .ok s)
    (hentries : Settings.extensionEntries? t = some entries) (hr : ofSettings s = .ok r)
    (hmem : (key, .string name) ∈ entries) (hplain : Plain (normalizeExtension key)) :
    ∃ kept name', (kept, .string name') ∈ entries ∧
      normalizeExtension kept = normalizeExtension key ∧
      (∀ other name'', (other, .string name'') ∈ entries →
        normalizeExtension other = normalizeExtension key → ¬ kept < other) ∧
      r.Honoured kept name' := by
  obtain ⟨kept, name', hkept, hnormal, hgreatest, hfind⟩ :=
    Settings.exists_kept hparse hentries hmem
  refine ⟨kept, name', hkept, hnormal, hgreatest, ?_⟩
  have howns := owns_ofSettings hr hfind
  rw [Language.normalizeExtension_idem, ← hnormal] at howns
  exact (faithful_ofSettings hr).toIndexed.honoured (hnormal ▸ hplain) howns

/-- Of the entries whose keys come to the same extension, the one of the greatest key is honoured;
all of them are exactly if they name the same language. -/
theorem honoured_iff {t : Text} {s : Settings} {entries : Toml.Entries}
    (hparse : Settings.parse t = .ok s)
    (hentries : Settings.extensionEntries? t = some entries) (hr : ofSettings s = .ok r) :
    (∀ key name, (key, .string name) ∈ entries → Plain (normalizeExtension key) →
      ∃ kept name', (kept, .string name') ∈ entries ∧
        normalizeExtension kept = normalizeExtension key ∧
        (∀ other name'', (other, .string name'') ∈ entries →
          normalizeExtension other = normalizeExtension key → ¬ kept < other) ∧
        r.Honoured kept name') ∧
    ((∀ key name, (key, .string name) ∈ entries → Plain (normalizeExtension key) →
        r.Honoured key name) ↔
      ∀ key name key' name', (key, .string name) ∈ entries → (key', .string name') ∈ entries →
        Plain (normalizeExtension key) → normalizeExtension key = normalizeExtension key' →
        r.byName? name = r.byName? name') := by
  refine ⟨fun key name hmem hplain => exists_honoured hparse hentries hr hmem hplain,
    fun hall key name key' name' hmem hmem' hplain heq => ?_,
    fun hsame key name hmem hplain => ?_⟩
  · obtain ⟨l, hl, hdetect⟩ := hall key name hmem hplain
    obtain ⟨l', hl', hdetect'⟩ := hall key' name' hmem' (heq ▸ hplain)
    rw [← heq, hdetect] at hdetect'
    rw [hl, hl', hdetect']
  · obtain ⟨kept, name', hmem', hnormal, _, l, hl, hdetect⟩ :=
      exists_honoured hparse hentries hr hmem hplain
    rw [hnormal] at hdetect
    exact ⟨l, (hsame key name kept name' hmem hmem' hplain hnormal.symm).trans hl, hdetect⟩

theorem mem_disputed {entries : Toml.Entries}
    (h : Settings.extensionEntries? disputed = some entries) :
    ("PYI".toList, .string "Ruby".toList) ∈ entries ∧
      ("pyi".toList, .string "python".toList) ∈ entries := by
  have hcheck : ((Settings.extensionEntries? disputed).any fun entries =>
      entries.any (fun entry => entry.1 = "PYI".toList ∧
        Settings.asString entry.2 = some "Ruby".toList) &&
      entries.any (fun entry => entry.1 = "pyi".toList ∧
        Settings.asString entry.2 = some "python".toList)) = true := by
    decide +kernel
  rw [h, Option.any_some, Bool.and_eq_true, List.any_eq_true, List.any_eq_true] at hcheck
  obtain ⟨⟨⟨key, v⟩, hmem, hfirst⟩, ⟨key', v'⟩, hmem', hsecond⟩ := hcheck
  rw [decide_eq_true_eq, Settings.asString_eq_some_iff] at hfirst hsecond
  obtain ⟨rfl, rfl⟩ := hfirst
  obtain ⟨rfl, rfl⟩ := hsecond
  exact ⟨hmem, hmem'⟩

theorem honoured_iff_disputed :
    ∃ s entries r, Settings.parse disputed = .ok s ∧
      Settings.extensionEntries? disputed = some entries ∧ ofSettings s = .ok r ∧
      ¬ ∀ key name, (key, .string name) ∈ entries → Plain (normalizeExtension key) →
        r.Honoured key name := by
  obtain ⟨s, r, _, hparse, hr, _, _, hruby, hpython⟩ := exists_disputed
  have hsome : (Settings.extensionEntries? disputed).isSome = true := by decide +kernel
  obtain ⟨entries, hentries⟩ := Option.isSome_iff_exists.1 hsome
  refine ⟨s, entries, r, hparse, hentries, hr, fun hall => ?_⟩
  have hnormal : normalizeExtension "PYI" = "pyi".toList := by decide +kernel
  have hplain : Plain (normalizeExtension "PYI") := by
    rw [hnormal]
    exact ⟨by decide, by decide, by decide⟩
  obtain ⟨hfirst, hsecond⟩ := mem_disputed hentries
  have hsame := (honoured_iff hparse hentries hr).2.1 hall "PYI" "Ruby" "pyi" "python" hfirst
    hsecond hplain (by decide +kernel)
  rw [hsame, hpython] at hruby
  exact absurd hruby (by decide)

end Registry

end Marginalia
