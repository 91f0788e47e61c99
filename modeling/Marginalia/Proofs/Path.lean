import Mathlib.Data.List.TakeWhile
import Marginalia.Path

/-! # File names and their extensions

A file name has an extension when a dot stands in it behind something else; the extension is what
follows the last dot (`extension?_eq_some_iff`).
-/

namespace Marginalia.Path

theorem components_of_notMem {t : Text} (h : '/' ∉ t) : components t = [t] := by
  induction t with
  | nil => rfl
  | cons c t ih =>
    rw [List.mem_cons, not_or] at h
    rw [components, if_neg (Ne.symm h.1), ih h.2]

theorem components_ne_nil (t : Text) : components t ≠ [] := by
  cases t with
  | nil => exact List.cons_ne_nil _ _
  | cons c t =>
    rw [components]
    split
    · exact List.cons_ne_nil _ _
    · split <;> exact List.cons_ne_nil _ _

theorem components_append_slash (t u : Text) :
    components (t ++ '/' :: u) = components t ++ components u := by
  induction t with
  | nil => rfl
  | cons c t ih =>
    rw [List.cons_append, components, components, ih]
    split
    · rfl
    · obtain ⟨first, rest, hfirst⟩ := List.exists_cons_of_ne_nil (components_ne_nil t)
      rw [hfirst]
      rfl

theorem divide_of_notMem {t : Text} (hslash : '/' ∉ t) (hdot : t ≠ ['.']) :
    divide t = ([], t) := by
  rw [divide.eq_def]
  split
  · simp at hslash
  · exact absurd rfl hdot
  · simp at hslash
  · rfl

/-- A name by itself is a path to it. -/
theorem fileName?_of_notMem {name : Text} (hslash : '/' ∉ name) (hname : name ≠ [])
    (hdot : name ≠ ['.']) (hdots : name ≠ ['.', '.']) : fileName? name = some name := by
  have hidle : isIdle name = false := by simp [isIdle, hname, hdot]
  have hbackward : backward name = [name] := by
    rw [backward, divide_of_notMem hslash hdot, components_of_notMem hslash]
    exact List.dropWhile_cons_of_neg (by simp [hidle])
  rw [fileName?, hbackward]
  exact if_neg hdots

/-- At most one character leads a path. -/
theorem append_divide (path : Text) :
    (divide path).1 ++ (divide path).2 = path ∧ (divide path).1.length ≤ 1 := by
  rw [divide.eq_def]
  split <;> exact ⟨rfl, by simp⟩

/-- The name behind the last slash is the name of the file. -/
theorem fileName?_below {dir name : Text} (hslash : '/' ∉ name) (hname : name ≠ [])
    (hdot : name ≠ ['.']) (hdots : name ≠ ['.', '.']) :
    fileName? (dir ++ '/' :: name) = some name := by
  have hidle : isIdle name = false := by simp [isIdle, hname, hdot]
  have hcomponents : ∃ before, components (divide (dir ++ '/' :: name)).2 = before ++ [name] := by
    obtain ⟨hpath, hlength⟩ := append_divide (dir ++ '/' :: name)
    generalize divide (dir ++ '/' :: name) = divided at hpath hlength
    obtain ⟨lead, path⟩ := divided
    rcases List.append_eq_append_iff.1 hpath with ⟨more, rfl, hmore⟩ | ⟨more, rfl, hmore⟩
    · refine ⟨components more, ?_⟩
      rw [hmore, components_append_slash, components_of_notMem hslash]
    · rcases List.cons_eq_append_iff.1 hmore with ⟨rfl, rfl⟩ | ⟨more, rfl, rfl⟩
      · refine ⟨components [], ?_⟩
        rw [← components_of_notMem hslash, ← components_append_slash]
        rfl
      · obtain ⟨rfl, rfl⟩ : dir = [] ∧ more = [] := by
          simp only [List.length_append, List.length_cons] at hlength
          exact ⟨List.length_eq_zero_iff.1 (by omega), List.length_eq_zero_iff.1 (by omega)⟩
        exact ⟨[], components_of_notMem hslash⟩
  obtain ⟨before, hcomponents⟩ := hcomponents
  have hbackward : backward (dir ++ '/' :: name) = name :: before.reverse := by
    rw [backward, hcomponents, List.reverse_append, List.reverse_singleton, List.singleton_append]
    exact List.dropWhile_cons_of_neg (by simp [hidle])
  rw [fileName?, hbackward]
  exact if_neg hdots

theorem takeWhile_reverse_ne_dot {ext : Text} (h : '.' ∉ ext) (stem : Text) :
    (stem ++ '.' :: ext).reverse.takeWhile (· != '.') = ext.reverse := by
  have hext : ∀ c ∈ ext.reverse, (c != '.') = true := by
    intro c hc
    rw [bne_iff_ne]
    rintro rfl
    exact h (List.mem_reverse.1 hc)
  rw [List.reverse_append, List.reverse_cons, List.append_assoc,
    List.takeWhile_append_of_pos hext, List.singleton_append,
    List.takeWhile_cons_of_neg (by simp), List.append_nil]

/-- The last dot divides a name in one way. -/
theorem append_dot_inj {stem stem' ext ext' : Text} (h : '.' ∉ ext) (h' : '.' ∉ ext')
    (heq : stem ++ '.' :: ext = stem' ++ '.' :: ext') : stem = stem' ∧ ext = ext' := by
  have hreverse := takeWhile_reverse_ne_dot h stem
  rw [heq, takeWhile_reverse_ne_dot h', List.reverse_inj] at hreverse
  subst hreverse
  exact ⟨List.append_cancel_right heq, rfl⟩

theorem exists_last_dot {name : Text} (h : '.' ∈ name) :
    ∃ stem ext, '.' ∉ ext ∧ name = stem ++ '.' :: ext := by
  obtain ⟨front, back, hsplit, hfront⟩ := List.eq_append_cons_of_mem (List.mem_reverse.2 h)
  refine ⟨back.reverse, front.reverse, by simpa using hfront, ?_⟩
  simpa using congrArg List.reverse hsplit

theorem extension?_eq_some_iff {path ext : Text} :
    extension? path = some ext ↔
      '.' ∉ ext ∧ ∃ stem, stem ≠ [] ∧ fileName? path = some (stem ++ '.' :: ext) := by
  rw [extension?]
  cases fileName? path with
  | none => simp
  | some name =>
    dsimp only [Option.bind_eq_bind, Option.bind_some]
    by_cases hdot : '.' ∈ name
    · obtain ⟨stem, tail, htail, rfl⟩ := exists_last_dot hdot
      have hlength : (stem ++ '.' :: tail).length - tail.length = stem.length + 1 := by
        rw [List.length_append, List.length_cons]
        omega
      rw [takeWhile_reverse_ne_dot htail, List.reverse_reverse, hlength]
      simp only [Option.some.injEq]
      cases stem with
      | nil =>
        refine ⟨nofun, ?_⟩
        rintro ⟨hext, stem', hstem', heq⟩
        exact absurd (append_dot_inj htail hext heq).1.symm hstem'
      | cons c stem =>
        constructor
        · rintro ⟨⟩
          exact ⟨htail, c :: stem, nofun, rfl⟩
        · rintro ⟨hext, stem', _, heq⟩
          exact congrArg some (append_dot_inj htail hext heq).2
    · have hall : name.reverse.takeWhile (· != '.') = name.reverse := by
        rw [List.takeWhile_eq_self_iff]
        intro c hc
        rw [bne_iff_ne]
        rintro rfl
        exact hdot (List.mem_reverse.1 hc)
      rw [hall, List.reverse_reverse, Nat.sub_self]
      refine ⟨nofun, ?_⟩
      rintro ⟨_, stem, _, hname⟩
      exact absurd (Option.some.inj hname ▸ by simp) hdot

end Marginalia.Path
