import Marginalia.Proofs.Language.OutputName
import Marginalia.Proofs.Path

/-! # Output names in a directory

An extension is replaced at the end of the whole path, and what has to stand before it may be the
directory. So a directory goes over to the output name as it is, unless the base name is nothing but
an extension, or part of one (`outputName_below_iff`).
-/

namespace Marginalia.Language

/-- What stands before the first of the extensions that a name ends with. -/
def stem? (l : Language) (filename : Text) : Option Text :=
  l.extensions.findSome? fun ext => replaceExtension? filename ext []

theorem replaceExtension?_eq_map (filename ext suffix : Text) :
    replaceExtension? filename ext suffix =
      (replaceExtension? filename ext []).map (· ++ suffix) := by
  simp only [replaceExtension?]
  split
  · rw [Option.map_some, List.append_nil]
  · rfl

theorem outputName_eq {l : Language} {filename : Text}
    (h : (Path.fileName? filename).bind l.substitutes.find? = none) (suffix : Text) :
    l.outputName filename suffix = ((l.stem? filename).map (· ++ suffix)).getD filename := by
  have hreplace : (fun ext => replaceExtension? filename ext suffix) = fun ext =>
      (replaceExtension? filename ext []).map (· ++ suffix) :=
    funext fun ext => replaceExtension?_eq_map filename ext suffix
  rw [outputName, h, hreplace, stem?, List.map_findSome?]
  rfl

theorem replaceExtension?_nil_eq_some_iff {filename ext stem : Text} :
    replaceExtension? filename ext [] = some stem ↔
      stem ≠ [] ∧ ∃ ext', filename = stem ++ '.' :: ext' ∧ Text.eqIgnoringCase ext' ext = true := by
  rw [replaceExtension?_eq_some_iff]
  constructor
  · rintro ⟨stem, ext', hstem, hname, heq, rfl⟩
    rw [List.append_nil]
    exact ⟨hstem, ext', hname, heq⟩
  · rintro ⟨hstem, ext', hname, heq⟩
    exact ⟨stem, ext', hstem, hname, heq, (List.append_nil stem).symm⟩

section Below

variable {l : Language} {dir base stem : Text}

/-- As long as something of the base name is left, the directory does not matter. -/
theorem replaceExtension?_below_iff {ext : Text} (hstem : stem ≠ []) :
    replaceExtension? (dir ++ '/' :: base) ext [] = some (dir ++ '/' :: stem) ↔
      replaceExtension? base ext [] = some stem := by
  simp only [replaceExtension?_nil_eq_some_iff]
  have hbelow (ext' : Text) : dir ++ '/' :: base = dir ++ '/' :: stem ++ '.' :: ext' ↔
      base = stem ++ '.' :: ext' := by
    rw [List.append_assoc, List.append_cancel_left_eq, List.cons_append, List.cons.injEq]
    exact and_iff_right rfl
  simp only [hbelow]
  exact and_congr_left fun _ => iff_of_true (by simp) hstem

theorem replaceExtension?_of_below_eq_none {ext : Text}
    (h : replaceExtension? (dir ++ '/' :: base) ext [] = none) :
    replaceExtension? base ext [] = none := by
  rw [Option.eq_none_iff_forall_ne_some]
  intro stem hstem
  have hne := (replaceExtension?_nil_eq_some_iff.1 hstem).1
  rw [(replaceExtension?_below_iff hne).2 hstem] at h
  cases h

theorem stem?_of_below_eq_none (h : l.stem? (dir ++ '/' :: base) = none) : l.stem? base = none := by
  rw [stem?, List.findSome?_eq_none_iff] at h ⊢
  exact fun ext hext => replaceExtension?_of_below_eq_none (h ext hext)

theorem stem?_of_below_eq_some (hstem : stem ≠ [])
    (h : l.stem? (dir ++ '/' :: base) = some (dir ++ '/' :: stem)) : l.stem? base = some stem := by
  rw [stem?] at h ⊢
  generalize l.extensions = exts at h
  induction exts with
  | nil => cases h
  | cons ext exts ih =>
    rw [List.findSome?_cons] at h ⊢
    cases hext : replaceExtension? (dir ++ '/' :: base) ext [] with
    | none =>
      rw [hext] at h
      rw [replaceExtension?_of_below_eq_none hext]
      exact ih h
    | some found =>
      rw [hext] at h
      obtain rfl := Option.some.inj h
      rw [(replaceExtension?_below_iff hstem).1 hext]

theorem exists_of_stem? {filename : Text} (h : l.stem? filename = some stem) :
    stem ≠ [] ∧ ∃ taken, filename = stem ++ taken := by
  obtain ⟨_, _, hext⟩ := List.exists_of_findSome?_eq_some h
  obtain ⟨hne, ext, hname, _⟩ := replaceExtension?_nil_eq_some_iff.1 hext
  exact ⟨hne, '.' :: ext, hname⟩

/-- What stands before the extension reaches beyond the directory or not. -/
theorem exists_stem_of_length_lt {taken : Text} (h : dir ++ '/' :: base = stem ++ taken)
    (hlength : dir.length + 1 < stem.length) : ∃ rest, rest ≠ [] ∧ stem = dir ++ '/' :: rest := by
  have happend : (dir ++ ['/']) ++ base = stem ++ taken := by
    rw [← h, List.append_assoc, List.singleton_append]
  rcases List.append_eq_append_iff.1 happend with ⟨rest, rfl, _⟩ | ⟨rest, hdir, _⟩
  · refine ⟨rest, ?_, by simp⟩
    rintro rfl
    simp at hlength
  · have hle := congrArg List.length hdir
    simp only [List.length_append, List.length_singleton] at hle
    omega

/-- A directory goes over to the output name as it is if and only if what is replaced leaves
something of the base name, or puts the same in its place and would not have been replaced in the
base name. -/
theorem outputName_below_iff (hslash : '/' ∉ base) (hname : base ≠ []) (hdot : base ≠ ['.'])
    (hdots : base ≠ ['.', '.']) (hsubstitute : l.substitutes.find? base = none) (suffix : Text) :
    l.outputName (dir ++ '/' :: base) suffix = dir ++ '/' :: l.outputName base suffix ↔
      ∀ stem, l.stem? (dir ++ '/' :: base) = some stem →
        dir.length + 1 < stem.length ∨
          stem ++ suffix = dir ++ '/' :: base ∧ l.stem? base = none := by
  have hbelow : (Path.fileName? (dir ++ '/' :: base)).bind l.substitutes.find? = none := by
    rwa [Path.fileName?_below hslash hname hdot hdots]
  have hbase : (Path.fileName? base).bind l.substitutes.find? = none := by
    rwa [Path.fileName?_of_notMem hslash hname hdot hdots]
  rw [outputName_eq hbelow, outputName_eq hbase]
  cases hstem : l.stem? (dir ++ '/' :: base) with
  | none =>
    rw [stem?_of_below_eq_none hstem]
    exact iff_of_true rfl nofun
  | some stem =>
    obtain ⟨_, taken, htaken⟩ := exists_of_stem? hstem
    by_cases hlength : dir.length + 1 < stem.length
    · obtain ⟨rest, hrest, rfl⟩ := exists_stem_of_length_lt htaken hlength
      rw [stem?_of_below_eq_some hrest hstem]
      refine iff_of_true (by simp) ?_
      rintro _ ⟨⟩
      exact .inl hlength
    · cases hbase : l.stem? base with
      | none =>
        constructor
        · rintro hname _ ⟨⟩
          exact .inr ⟨hname, rfl⟩
        · intro h
          exact (h stem rfl).elim (absurd · hlength) And.left
      | some rest =>
        constructor
        · intro hname
          have heq := congrArg List.length hname
          simp only [Option.map_some, Option.getD_some, List.length_append, List.length_cons] at heq
          have hrest := List.length_pos_iff.2 (exists_of_stem? hbase).1
          omega
        · intro h
          obtain hlt | ⟨_, hnone⟩ := h stem rfl
          · exact absurd hlt hlength
          · cases hnone

/-- The name `.py` is kept, and `pkg/.py` becomes `pkg/.html`. -/
theorem outputName_below_dotfile :
    ({ name := "Python", extensions := ["py", "pyx"] } : Language).outputName
        ("pkg".toList ++ '/' :: ".py".toList) ".html" ≠
      "pkg".toList ++ '/' ::
        ({ name := "Python", extensions := ["py", "pyx"] } : Language).outputName ".py" ".html" := by
  rw [ne_eq, outputName_below_iff (by decide) (by decide) (by decide) (by decide) rfl]
  intro h
  have hstem := h "pkg/" (by decide)
  revert hstem
  decide

end Below

end Marginalia.Language
