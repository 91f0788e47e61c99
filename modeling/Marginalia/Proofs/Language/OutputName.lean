import Marginalia.Language.OutputName
import Marginalia.Proofs.Text.Cut
import Marginalia.Proofs.Text.Lower

/-! # Output names

An extension is replaced exactly where the name ends with it, up to the case of ASCII letters, and
something stands before its dot (`replaceExtension?_eq_some_iff`).
-/

namespace Marginalia

namespace Text

theorem utf8Size_toLower (c : Char) : c.toLower.utf8Size = c.utf8Size := by
  have hone {c : Char} (h : c.toNat ≤ 127) : c.utf8Size = 1 :=
    Char.utf8Size_eq_one_iff.2 (UInt32.le_iff_toNat_le.2 h)
  have htoLower := toNat_toLower c
  split at htoLower
  · rw [hone (by omega), hone (by omega)]
  · rw [Char.toNat_inj.1 htoLower]

theorem size_map_toLower (t : Text) : size (t.map Char.toLower) = size t := by
  induction t with
  | nil => rfl
  | cons c t ih => rw [List.map_cons, size_cons, size_cons, utf8Size_toLower, ih]

theorem size_eq_of_eqIgnoringCase {s t : Text} (h : eqIgnoringCase s t = true) :
    size s = size t := by
  rw [eqIgnoringCase, beq_iff_eq] at h
  rw [← size_map_toLower s, h, size_map_toLower]

theorem eqIgnoringCase_map_toLower (t : Text) : eqIgnoringCase t (t.map Char.toLower) = true := by
  have hlower (c : Char) : c.toLower.toLower = c.toLower := by
    have htoLower := toNat_toLower c.toLower
    have hupper := toNat_toLower c
    rw [if_neg (by split at hupper <;> omega)] at htoLower
    exact Char.toNat_inj.1 htoLower
  simp [eqIgnoringCase, hlower]

theorem eqIgnoringCase_dot_cons_iff {s t : Text} :
    eqIgnoringCase s ('.' :: t) = true ↔ ∃ u, s = '.' :: u ∧ eqIgnoringCase u t = true := by
  cases s with
  | nil => simp [eqIgnoringCase]
  | cons c u =>
    have hdot : c.toLower = '.' ↔ c = '.' := by
      have htoLower := toNat_toLower c
      rw [← Char.toNat_inj, ← Char.toNat_inj]
      change c.toLower.toNat = 0x2E ↔ c.toNat = 0x2E
      split at htoLower <;> omega
    simp [eqIgnoringCase, hdot, and_assoc]

end Text

namespace Language

theorem replaceExtension?_eq_some_iff {filename ext suffix output : Text} :
    replaceExtension? filename ext suffix = some output ↔
      ∃ stem ext', stem ≠ [] ∧ filename = stem ++ '.' :: ext' ∧
        Text.eqIgnoringCase ext' ext = true ∧ output = stem ++ suffix := by
  simp only [replaceExtension?]
  constructor
  · intro h
    split at h
    · rename_i hfits
      cases h
      rw [Bool.and_eq_true, decide_eq_true_eq, Text.eqIgnoringCase_dot_cons_iff] at hfits
      obtain ⟨hcut, ext', hafter, heq⟩ := hfits
      have hname := Text.upTo_append_after (Text.size filename - Text.size ('.' :: ext)) filename
      rw [hafter] at hname
      refine ⟨_, ext', fun hstem => ?_, hname.symm, heq, rfl⟩
      have hsize := congrArg Text.size hname
      rw [hstem, List.nil_append, Text.size_cons, Text.size_eq_of_eqIgnoringCase heq,
        ← Text.size_cons] at hsize
      omega
    · cases h
  · rintro ⟨stem, ext', hstem, rfl, heq, rfl⟩
    have hcut : Text.size (stem ++ '.' :: ext') - Text.size ('.' :: ext) = Text.size stem := by
      rw [Text.size_append, Text.size_cons, Text.size_cons, Text.size_eq_of_eqIgnoringCase heq]
      omega
    have hpos : 0 < Text.size stem := Nat.pos_of_ne_zero (mt Text.size_eq_zero_iff.1 hstem)
    have hfits : Text.eqIgnoringCase ('.' :: ext') ('.' :: ext) = true :=
      Text.eqIgnoringCase_dot_cons_iff.2 ⟨ext', rfl, heq⟩
    rw [hcut, Text.after_size_append, Text.upTo_size_append, if_pos (by simp [hpos, hfits])]

/-- Without a substitute, a name that ends with one of the extensions has one of them replaced. -/
theorem exists_outputName {l : Language} {filename stem ext ext' : Text} (suffix : Text)
    (hsubstitute : (Path.fileName? filename).bind l.substitutes.find? = none)
    (hext : ext ∈ l.extensions) (hstem : stem ≠ []) (hname : filename = stem ++ '.' :: ext')
    (heq : Text.eqIgnoringCase ext' ext = true) :
    ∃ stem ext ext', stem ≠ [] ∧ ext ∈ l.extensions ∧ filename = stem ++ '.' :: ext' ∧
      Text.eqIgnoringCase ext' ext = true ∧ l.outputName filename suffix = stem ++ suffix := by
  have hsome : (l.extensions.findSome? fun ext => replaceExtension? filename ext suffix).isSome := by
    rw [List.findSome?_isSome_iff]
    refine ⟨ext, hext, Option.isSome_iff_exists.2 ⟨stem ++ suffix, ?_⟩⟩
    exact replaceExtension?_eq_some_iff.2 ⟨stem, ext', hstem, hname, heq, rfl⟩
  obtain ⟨output, houtput⟩ := Option.isSome_iff_exists.1 hsome
  obtain ⟨found, hfound, hreplace⟩ := List.exists_of_findSome?_eq_some houtput
  obtain ⟨stem, ext', hstem, hname, heq, rfl⟩ := replaceExtension?_eq_some_iff.1 hreplace
  refine ⟨stem, found, ext', hstem, hfound, hname, heq, ?_⟩
  rw [outputName, hsubstitute, houtput, Option.getD_some]

end Language

end Marginalia
