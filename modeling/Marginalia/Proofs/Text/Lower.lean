import Marginalia.Text.Lower

/-! # Lower case is reached at once

No run of case pairs covers a character that lower case leads to (`check_lowerRuns`), so lower case
is idempotent (`toLower_toLower`). A dot comes from a dot alone. ASCII texts are mapped character by
character.
-/

namespace Marginalia.Text

theorem toNat_toLower (c : Char) :
    c.toLower.toNat = if 65 ≤ c.toNat ∧ c.toNat ≤ 90 then c.toNat + 32 else c.toNat := by
  have hupper : c.val ≥ 'A'.val ∧ c.val ≤ 'Z'.val ↔ 65 ≤ c.toNat ∧ c.toNat ≤ 90 := by
    simp only [ge_iff_le, UInt32.le_iff_toNat_le]
    rfl
  delta Char.toLower
  split
  · rename_i h
    rw [if_pos (hupper.1 h)]
    have hle : c.val.toNat ≤ 90 := (hupper.1 h).2
    change (c.val + 32).toNat = c.val.toNat + 32
    rw [UInt32.toNat_add]
    change (c.val.toNat + 32) % 2 ^ 32 = c.val.toNat + 32
    omega
  · rename_i h
    rw [if_neg (mt hupper.2 h)]

theorem toNat_ofNat {n : Nat} (h : n.isValidChar) : (Char.ofNat n).toNat = n := by
  rw [Char.ofNat, dif_pos h]
  rfl

namespace CaseRun

/-- The last code point that the run leads to. -/
def reach (r : CaseRun) : Nat := r.target + (r.last - r.first)

-- `Nat.blt` and `Nat.beq` rather than `<` and `==`, for a check of all pairs of runs.

/-- Whether the run leads to characters from the small letters on. -/
def landsOnChars (r : CaseRun) : Bool :=
  Nat.blt 0x60 r.target &&
    (Nat.blt r.reach 0xD800 || Nat.blt 0xDFFF r.target && Nat.blt r.reach 0x110000)

/-- Whether the run leads to nothing that `s` covers: it ends before `s`, starts behind it, or both
run over every other code point and miss each other. -/
def avoids (r s : CaseRun) : Bool :=
  Nat.blt r.reach s.first || Nat.blt s.last r.target ||
    (Nat.beq (r.step % 2) 0 || Nat.beq r.reach r.target) && Nat.beq (s.step % 2) 0 &&
      Nat.beq ((r.target + s.first) % 2) 1

variable {r s : CaseRun} {n : Nat}

theorem covers_iff :
    r.covers n = true ↔ r.first ≤ n ∧ n ≤ r.last ∧ (n - r.first) % r.step = 0 := by
  simp only [covers, Bool.and_eq_true, decide_eq_true_eq, beq_iff_eq, and_assoc]

theorem isValidChar_of_landsOnChars (h : r.landsOnChars = true) (hn : r.covers n = true) :
    0x60 < r.target + (n - r.first) ∧ (r.target + (n - r.first)).isValidChar := by
  simp only [landsOnChars, reach, Bool.and_eq_true, Bool.or_eq_true, Nat.blt_eq] at h
  obtain ⟨_, hlast, _⟩ := covers_iff.1 hn
  refine ⟨by omega, ?_⟩
  rw [Nat.isValidChar]
  omega

theorem covers_of_avoids (h : r.avoids s = true) (hn : r.covers n = true) :
    s.covers (r.target + (n - r.first)) = false := by
  obtain ⟨hfirst, hlast, hstep⟩ := covers_iff.1 hn
  rw [Bool.eq_false_iff]
  intro hs
  obtain ⟨hsfirst, hslast, hsstep⟩ := covers_iff.1 hs
  simp only [avoids, reach, Bool.and_eq_true, Bool.or_eq_true, Nat.blt_eq, Nat.beq_eq] at h
  rcases h with (h | h) | ⟨⟨hr, hs⟩, hodd⟩
  · omega
  · omega
  · -- On one side the distance is even, on the other the starts differ in parity.
    have heven : (n - r.first) % 2 = 0 := by
      rcases hr with hr | hr
      · exact Nat.mod_eq_zero_of_dvd
          (Nat.dvd_trans (Nat.dvd_of_mod_eq_zero hr) (Nat.dvd_of_mod_eq_zero hstep))
      · omega
    have hseven : (r.target + (n - r.first) - s.first) % 2 = 0 :=
      Nat.mod_eq_zero_of_dvd
        (Nat.dvd_trans (Nat.dvd_of_mod_eq_zero hs) (Nat.dvd_of_mod_eq_zero hsstep))
    omega

end CaseRun

theorem check_lowerRuns :
    (lowerRuns.all fun r => r.landsOnChars && lowerRuns.all r.avoids) = true := by
  decide +kernel

/-- Only the first run covers ASCII characters. -/
theorem check_asciiRuns : (lowerRuns.tail.all fun r => Nat.blt 127 r.first) = true := by
  decide +kernel

/-- A character that no run takes to another one. -/
def IsLow (c : Char) : Prop := (lowerRuns.any (·.covers c.toNat)) = false

instance (c : Char) : Decidable (IsLow c) := inferInstanceAs (Decidable (_ = false))

theorem isLow_iff {c : Char} : IsLow c ↔ ∀ r ∈ lowerRuns, r.covers c.toNat = false := by
  simp [IsLow]

theorem isLow_of_lt {c : Char} (h : c.toNat < 128) (hupper : ¬ (65 ≤ c.toNat ∧ c.toNat ≤ 90)) :
    IsLow c := by
  rw [isLow_iff]
  intro r hr
  rw [Bool.eq_false_iff]
  intro hcovers
  obtain ⟨hfirst, hlast, _⟩ := CaseRun.covers_iff.1 hcovers
  rcases List.mem_cons.1 (show r ∈ ⟨0x41, 0x5A, 1, 0x61⟩ :: lowerRuns.tail from hr) with rfl | hr
  · exact hupper ⟨hfirst, hlast⟩
  · have hascii := List.all_eq_true.1 check_asciiRuns r hr
    rw [Nat.blt_eq] at hascii
    omega

theorem mapCase_of_isLow {c : Char} (h : IsLow c) : mapCase lowerRuns c.toNat = c.toNat := by
  rw [mapCase, List.find?_eq_none.2 fun r hr => by simp [isLow_iff.1 h r hr]]

theorem isLow_or_mapCase (c : Char) :
    IsLow c ∨ ∃ r ∈ lowerRuns, r.covers c.toNat = true ∧
      mapCase lowerRuns c.toNat = r.target + (c.toNat - r.first) := by
  cases hfind : lowerRuns.find? (·.covers c.toNat) with
  | none => exact .inl (isLow_iff.2 fun r hr => by simpa using List.find?_eq_none.1 hfind r hr)
  | some r =>
    have hcovers : r.covers c.toNat = true := by simpa using List.find?_some hfind
    refine .inr ⟨r, List.mem_of_find?_eq_some hfind, hcovers, ?_⟩
    rw [mapCase, hfind]

theorem isLow_ofNat_mapCase (c : Char) :
    IsLow (.ofNat (mapCase lowerRuns c.toNat)) ∧
      (Char.ofNat (mapCase lowerRuns c.toNat) = '.' → c = '.') := by
  rcases isLow_or_mapCase c with hlow | ⟨r, hr, hcovers, hmap⟩
  · rw [mapCase_of_isLow hlow, Char.ofNat_toNat]
    exact ⟨hlow, id⟩
  · have hchecked := List.all_eq_true.1 check_lowerRuns r hr
    rw [Bool.and_eq_true, List.all_eq_true] at hchecked
    obtain ⟨hlands, havoids⟩ := hchecked
    obtain ⟨hletter, hvalid⟩ := CaseRun.isValidChar_of_landsOnChars hlands hcovers
    rw [hmap]
    refine ⟨isLow_iff.2 fun s hs => ?_, fun hdot => ?_⟩
    · rw [toNat_ofNat hvalid]
      exact CaseRun.covers_of_avoids (havoids s hs) hcovers
    · have hnat := toNat_ofNat hvalid
      rw [hdot] at hnat
      change 0x2E = _ at hnat
      omega

theorem isLow_of_mem_lowerChar {c d : Char} (h : d ∈ lowerChar c) :
    IsLow d ∧ (d = '.' → c = '.') := by
  have htoLower := toNat_toLower c
  rw [lowerChar] at h
  split at h
  · rename_i hascii
    obtain rfl := List.mem_singleton.1 h
    refine ⟨isLow_of_lt ?_ ?_, fun hdot => ?_⟩
    · split at htoLower <;> omega
    · split at htoLower <;> omega
    · rw [hdot] at htoLower
      change 0x2E = _ at htoLower
      rw [← Char.toNat_inj]
      change _ = 0x2E
      split at htoLower <;> omega
  · split at h
    · have hdotted : d = 'i' ∨ d = .ofNat 0x307 := by simpa using h
      rcases hdotted with rfl | rfl
      · exact ⟨by decide +kernel, by simp⟩
      · exact ⟨by decide +kernel, by simp⟩
    · obtain rfl := List.mem_singleton.1 h
      exact isLow_ofNat_mapCase c

theorem lowerChar_of_isLow {c : Char} (h : IsLow c) : lowerChar c = [c] := by
  rw [lowerChar]
  split
  · rename_i hascii
    have hupper : ¬ (65 ≤ c.toNat ∧ c.toNat ≤ 90) := by
      intro hupper
      have hcovers : (⟨0x41, 0x5A, 1, 0x61⟩ : CaseRun).covers c.toNat = true :=
        CaseRun.covers_iff.2 ⟨hupper.1, hupper.2, Nat.mod_one _⟩
      rw [isLow_iff.1 h _ List.mem_cons_self] at hcovers
      cases hcovers
    have htoLower := toNat_toLower c
    rw [if_neg hupper, Char.toNat_inj] at htoLower
    rw [htoLower]
  · split
    · rename_i hdotted
      have hcapital : ¬ IsLow c := by
        rw [IsLow, hdotted]
        decide +kernel
      exact absurd h hcapital
    · rw [mapCase_of_isLow h, Char.ofNat_toNat]

theorem ne_sigma_of_isLow {c : Char} (h : IsLow c) : c ≠ 'Σ' := by
  rintro rfl
  revert h
  decide +kernel

/-- Lower case of a text, one character on. -/
theorem exists_lowerAfter_cons (before : Text) (c : Char) (t : Text) :
    ∃ image, lowerAfter before (c :: t) = image ++ lowerAfter (c :: before) t ∧ image ≠ [] ∧
      ∀ d ∈ image, IsLow d ∧ (d = '.' → c = '.') := by
  refine ⟨_, rfl, ?_, fun d hd => ?_⟩
  · split
    · split <;> simp
    · rw [lowerChar]
      split
      · simp
      · split <;> simp
  · split at hd
    · split at hd <;> obtain rfl := List.mem_singleton.1 hd <;>
        exact ⟨by decide +kernel, nofun⟩
    · exact isLow_of_mem_lowerChar hd

theorem isLow_of_mem_lowerAfter {before t : Text} {d : Char} (h : d ∈ lowerAfter before t) :
    IsLow d := by
  induction t generalizing before with
  | nil => cases h
  | cons c t ih =>
    obtain ⟨image, hcons, _, himage⟩ := exists_lowerAfter_cons before c t
    rw [hcons] at h
    rcases List.mem_append.1 h with h | h
    · exact (himage d h).1
    · exact ih h

theorem lowerAfter_of_isLow {before t : Text} (h : ∀ c ∈ t, IsLow c) : lowerAfter before t = t := by
  induction t generalizing before with
  | nil => rfl
  | cons c t ih =>
    have hc := h c List.mem_cons_self
    rw [lowerAfter, if_neg (ne_sigma_of_isLow hc), lowerChar_of_isLow hc,
      ih fun d hd => h d (List.mem_cons_of_mem _ hd), List.singleton_append]

theorem toLower_toLower (t : Text) : toLower (toLower t) = toLower t :=
  lowerAfter_of_isLow fun _ hc => isLow_of_mem_lowerAfter hc

theorem toLower_of_ascii {t : Text} (h : ∀ c ∈ t, c.toNat < 128) :
    toLower t = t.map Char.toLower := by
  rw [toLower]
  generalize ([] : Text) = before
  induction t generalizing before with
  | nil => rfl
  | cons c t ih =>
    have hc := h c List.mem_cons_self
    have hsigma : c ≠ 'Σ' := by
      rintro rfl
      exact absurd hc (by decide)
    rw [lowerAfter, if_neg hsigma, lowerChar, if_pos hc,
      ih (fun d hd => h d (List.mem_cons_of_mem _ hd)), List.singleton_append, List.map_cons]

/-- A text that does not start with a dot does not do so in lower case. -/
theorem dropWhile_toLower {t : Text} (h : t.head? ≠ some '.') :
    (toLower t).dropWhile (· == '.') = toLower t := by
  cases t with
  | nil => rfl
  | cons c t =>
    obtain ⟨image, hcons, hne, himage⟩ := exists_lowerAfter_cons [] c t
    obtain ⟨d, rest, rfl⟩ := List.exists_cons_of_ne_nil hne
    have hd : d ≠ '.' := by
      intro hdot
      exact h (congrArg some ((himage d List.mem_cons_self).2 hdot))
    rw [toLower, hcons, List.cons_append, List.dropWhile_cons_of_neg (by simpa using hd)]

end Marginalia.Text
