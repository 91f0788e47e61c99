import Marginalia.Proofs.Language.Capabilities
import Marginalia.Proofs.Language.OutputName
import Marginalia.Proofs.Path
import Marginalia.Proofs.Registry.Index
import Marginalia.Registry.Configured

/-! # Registries whose index is up to date

The index stays up to date as long as no name is registered twice, so it is for the built-in
languages with any further extensions (`faithful_ofSettings`). Therefore a file whose language is
known by its extension also has that extension replaced in its output name
(`exists_outputName_of_detect?`).
-/

namespace Marginalia

namespace Language

theorem name_of_addCapability {l l' : Language} {c : Capability} (h : l.addCapability c = .ok l') :
    l'.name = l.name := by
  obtain ⟨pipeline, capabilities, rfl⟩ := exists_of_install h
  obtain ⟨docExtensions, hconfigure⟩ := l.exists_configure c
  rw [hconfigure]

theorem name_addDocExtension (l : Language) (e : DocExtension) :
    (l.addDocExtension e).name = l.name := by
  obtain ⟨docExtensions, hdoc⟩ := l.exists_addDocExtension e
  rw [hdoc]

theorem name_foldl {α : Type} {f : Language → α → Language} (hf : ∀ l a, (f l a).name = l.name)
    (items : List α) (l : Language) : (items.foldl f l).name = l.name :=
  List.foldlRecOn (motive := fun l' : Language => l'.name = l.name) items f rfl
    fun l' hl' item _ => (hf l' item).trans hl'

end Language

namespace Outline

open Marginalia.Language (name_foldl)

theorem name_blank (o : Outline) : o.blank.name = o.name := by
  rw [blank, name_foldl, name_foldl, name_foldl]
  · cases o.kind <;> rfl
  all_goals exact fun _ _ => rfl

theorem name_of_build {o : Outline} {l : Language} (h : o.build = .ok l) : l.name = o.name := by
  obtain ⟨rules, _, h⟩ := exists_of_bind_eq_ok h
  obtain ⟨featured, hfeatured, h⟩ := exists_of_bind_eq_ok h
  have hstart : (rules.foldl .addScopeRule o.blank).name = o.name := by
    rw [name_foldl, name_blank]
    exact fun _ _ => rfl
  have hfeatures : featured.name = o.name := by
    refine of_foldlM_eq_ok (P := fun l : Language => l.name = o.name) ?_ hstart hfeatured
    intro l feature l' hl hstep
    obtain ⟨c, _, hadd⟩ := exists_of_bind_eq_ok hstep
    exact (Language.name_of_addCapability hadd).trans hl
  rw [Language.of_foldlM_removePass h]
  exact (name_foldl Language.name_addDocExtension o.docExtensions featured).trans hfeatures

end Outline

theorem Builtin.nodup_names {ls : List Language} (h : languages = .ok ls) :
    (ls.map (·.name)).Nodup := by
  have hnames : ls.map (·.name) = outlines.map (·.name) :=
    map_of_mapM_eq_ok (fun _ _ hbuild => Outline.name_of_build hbuild) h
  rw [hnames]
  decide

namespace Registry

variable {r r' : Registry} {l : Language} {ext name : Text}

structure Faithful (r : Registry) : Prop extends Indexed r where
  notStale : ∀ ext name, ¬ r.Stale ext name

namespace Faithful

theorem exists_of_owner (h : r.Faithful) (howner : r.owners.find? ext = some name) :
    ∃ l, r.languages.find? name = some l ∧ ext ∈ l.extensions := by
  obtain ⟨l, hfind⟩ := h.exists_owner howner
  refine ⟨l, hfind, ?_⟩
  by_contra hext
  refine h.notStale ext name ⟨howner, fun other hother => ?_⟩
  rw [hfind, Option.some.injEq] at hother
  rwa [← hother]

theorem add (h : r.Faithful) (hnew : r.languages.find? l.name = none) (hadd : r.add l = .ok r') :
    r'.Faithful := by
  refine ⟨h.toIndexed.of_apply (.add l) hadd, fun ext name hstale => ?_⟩
  rcases (stale_add_iff hadd).1 hstale with ⟨_, hname, howner, _⟩ | ⟨hstale, _⟩
  · -- Nothing belongs to a name that is not registered.
    obtain ⟨other, hfind⟩ := h.exists_owner howner
    rw [← hname, hnew] at hfind
    cases hfind
  · exact h.notStale ext name hstale

theorem aliasExtension (h : r.Faithful) (hok : r.aliasExtension ext name = .ok r') :
    r'.Faithful :=
  ⟨h.toIndexed.of_apply (.give ext name) hok, fun ext name hstale =>
    h.notStale ext name ((h.toIndexed.stale_aliasExtension_iff hok).1 hstale).1⟩

theorem of_foldlM_add {ls : List Language} (h : r.Faithful) (hnames : (ls.map (·.name)).Nodup)
    (hnew : ∀ l ∈ ls, r.languages.find? l.name = none) (hok : ls.foldlM Registry.add r = .ok r') :
    r'.Faithful := by
  induction ls generalizing r with
  | nil =>
    cases hok
    exact h
  | cons l ls ih =>
    rw [List.foldlM_cons] at hok
    obtain ⟨mid, hadd, hok⟩ := exists_of_bind_eq_ok hok
    rw [List.map_cons, List.nodup_cons] at hnames
    refine ih (h.add (hnew l List.mem_cons_self) hadd) hnames.2 (fun other hother => ?_) hok
    have hne : l.name ≠ other.name := by
      intro heq
      exact hnames.1 (heq ▸ List.mem_map_of_mem hother)
    rw [(updates_of_add hadd).languages_eq, if_neg hne]
    exact hnew other (List.mem_cons_of_mem _ hother)

end Faithful

theorem faithful_empty : Faithful {} := ⟨indexed_empty, nofun⟩

theorem faithful_ofSettings {s : Settings} (h : ofSettings s = .ok r) : r.Faithful := by
  obtain ⟨base, hbase, h⟩ := exists_of_bind_eq_ok h
  obtain ⟨ls, hls, hbase⟩ := exists_of_bind_eq_ok hbase
  have hfaithful : base.Faithful :=
    faithful_empty.of_foldlM_add (Builtin.nodup_names hls) (fun _ _ => rfl) hbase
  exact of_foldlM_eq_ok (fun _ _ _ hr hok => hr.aliasExtension hok) hfaithful h

theorem detect?_eq_some_iff {path : Text} :
    r.detect? path = some l ↔
      ∃ ext name, Path.extension? path = some ext ∧
        r.owners.find? (Text.toLower ext) = some name ∧ r.languages.find? name = some l := by
  simp only [detect?, Option.bind_eq_bind, Option.bind_eq_some_iff]
  constructor
  · rintro ⟨ext, hext, name, howner, hfind⟩
    exact ⟨ext, name, hext, howner, hfind⟩
  · rintro ⟨ext, name, hext, howner, hfind⟩
    exact ⟨ext, hext, name, howner, hfind⟩

/-- Where the extension of a file tells its language, the output name has an extension of that
language replaced. -/
theorem exists_outputName_of_detect? {s : Settings} {path name : Text} (hr : ofSettings s = .ok r)
    (hascii : ∀ c ∈ path, c.toNat < 128) (hname : Path.fileName? path = some name)
    (hends : Text.endsWith name path = true) (hdetect : r.detect? path = some l)
    (hsubstitute : l.substitutes.find? name = none) (suffix : Text) :
    ∃ stem ext ext', stem ≠ [] ∧ ext ∈ l.extensions ∧ path = stem ++ '.' :: ext' ∧
      Text.eqIgnoringCase ext' ext = true ∧ l.outputName path suffix = stem ++ suffix := by
  obtain ⟨ext, key, hext, howner, hfind⟩ := detect?_eq_some_iff.1 hdetect
  obtain ⟨found, hfound, hmem⟩ := (faithful_ofSettings hr).exists_of_owner howner
  rw [hfind, Option.some.injEq] at hfound
  subst hfound
  obtain ⟨_, stem, hstem, hfile⟩ := Path.extension?_eq_some_iff.1 hext
  rw [hname, Option.some.injEq] at hfile
  obtain ⟨front, hfront⟩ := Option.isSome_iff_exists.1 hends
  rw [Text.beforeTail?_eq_some_iff, hfile, ← List.append_assoc] at hfront
  have hextAscii : ∀ c ∈ ext, c.toNat < 128 := by
    intro c hc
    exact hascii c (by simp [hfront, hc])
  have heq : Text.eqIgnoringCase ext (Text.toLower ext) = true := by
    rw [Text.toLower_of_ascii hextAscii]
    exact Text.eqIgnoringCase_map_toLower ext
  refine Language.exists_outputName suffix ?_ hmem (by simp [hstem]) hfront heq
  rw [hname]
  exact hsubstitute

/-- Settings with two spellings of an extension that name different languages. -/
def disputed : Text := "[extensions]\nPYI = \"Ruby\"\npyi = \"python\"\n"

theorem check_disputed :
    ((Settings.parse disputed).toOption.any fun s => (ofSettings s).toOption.any fun r =>
      (r.detect? "lib/stubs.PYI").any fun l =>
        l.substitutes.find? "stubs.PYI" = none ∧
          (r.byName? "Ruby").map (·.name) = some "Ruby".toList ∧
          (r.byName? "python").map (·.name) = some "Python".toList) = true := by
  decide +kernel

theorem exists_disputed :
    ∃ s r l, Settings.parse disputed = .ok s ∧ ofSettings s = .ok r ∧
      r.detect? "lib/stubs.PYI" = some l ∧ l.substitutes.find? "stubs.PYI" = none ∧
      (r.byName? "Ruby").map (·.name) = some "Ruby".toList ∧
      (r.byName? "python").map (·.name) = some "Python".toList := by
  obtain ⟨s, hs, hcheck⟩ := exists_of_any_toOption check_disputed
  obtain ⟨r, hr, hcheck⟩ := exists_of_any_toOption hcheck
  obtain ⟨l, hdetect, hcheck⟩ := (Option.any_eq_true _ _).1 hcheck
  exact ⟨s, r, l, hs, hr, hdetect, of_decide_eq_true hcheck⟩

theorem exists_outputName_of_detect?_pyi :
    ∃ s r l, Settings.parse disputed = .ok s ∧ ofSettings s = .ok r ∧
      (∀ c ∈ ("lib/stubs.PYI" : Text), c.toNat < 128) ∧
      Path.fileName? "lib/stubs.PYI" = some "stubs.PYI".toList ∧
      Text.endsWith "stubs.PYI" "lib/stubs.PYI" = true ∧
      r.detect? "lib/stubs.PYI" = some l ∧ l.substitutes.find? "stubs.PYI" = none ∧
      ∃ stem ext ext', stem ≠ [] ∧ ext ∈ l.extensions ∧
        ("lib/stubs.PYI" : Text) = stem ++ '.' :: ext' ∧ Text.eqIgnoringCase ext' ext = true ∧
        l.outputName "lib/stubs.PYI" ".html" = stem ++ (".html" : Text) := by
  obtain ⟨s, r, l, hparse, hr, hdetect, hsubstitute, _⟩ := exists_disputed
  have hascii : ∀ c ∈ ("lib/stubs.PYI" : Text), c.toNat < 128 := by simp
  have hname : Path.fileName? "lib/stubs.PYI" = some "stubs.PYI".toList := by decide
  have hends : Text.endsWith "stubs.PYI" "lib/stubs.PYI" = true := by decide
  exact ⟨s, r, l, hparse, hr, hascii, hname, hends, hdetect, hsubstitute,
    exists_outputName_of_detect? hr hascii hname hends hdetect hsubstitute ".html"⟩

end Registry

end Marginalia
