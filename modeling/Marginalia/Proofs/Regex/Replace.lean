import Marginalia.Proofs.Regex.Row

/-! # Replacing in lines

Replacing the matches of a pattern that is bound to lines does to each line what it does to that
line alone (`replaceAll_eq_flatMap`). A match leaves the rest of its line behind, in which no line
starts, so that the next one is found in a later line.
-/

namespace Marginalia

open Text (EndsLine bareLine lines located rowsFrom size)

namespace Pattern

theorem nullable_of_inked {p : Pattern} (h : p.inked = true) : p.nullable = false := by
  induction p with
  | set s => rfl
  | seq p q ihp ihq =>
    rw [nullable, Bool.and_eq_false_iff]
    exact (Bool.or_eq_true_iff.1 h).imp ihp ihq
  | alt p q ihp ihq =>
    obtain ⟨hp, hq⟩ := Bool.and_eq_true_iff.1 h
    rw [nullable, ihp hp, ihq hq, Bool.or_false]
  | group n p ih => exact ih h
  | plus greedy p ih => exact ih h
  | _ => cases h

end Pattern

namespace Text

/-- From a place inside a line on, the lines behind it start. -/
theorem rowsFrom_behind {a x y v : Text} (ha : EndsLine a) (hx : x ≠ [])
    (hlines : lines (x ++ y ++ v) = (x ++ y) :: lines v) :
    rowsFrom (size (a ++ x)) (a ++ (x ++ y ++ v)) = located (size (a ++ x ++ y)) (lines v) := by
  have hsize := mt size_eq_zero_iff.1 hx
  have hfirst : ¬size (a ++ x) ≤ size a := by
    rw [size_append]
    omega
  have hrest : size (a ++ x) ≤ size a + size (x ++ y) := by
    simp only [size_append]
    omega
  have hoffset : size a ≤ size (a ++ x) := by
    rw [size_append]
    exact Nat.le_add_right _ _
  rw [rowsFrom_append ha hoffset, hlines, located,
    List.filter_cons_of_neg (by rwa [decide_eq_true_eq]), filter_located_of_le hrest,
    ← size_append, List.append_assoc]

theorem length_lines_le (t : Text) : (lines t).length ≤ t.length := by
  induction t using rows_induction with
  | row r hr =>
    by_cases hne : r = []
    · rw [hne]
      exact Nat.le_refl 0
    · rw [lines_row hr hne]
      exact List.length_pos_iff.2 hne
  | newline r t hr ih =>
    rw [lines_newline hr, List.length_cons, List.length_append, List.length_cons]
    omega

end Text

namespace Regex

variable {re : Regex} (h : re.pattern.LineBound)

include h in
/-- A match in a line covers a part that the line starts with. -/
theorem exists_of_findAt_bareLine {t line : Text} (hline : line ∈ lines t) {m : Match}
    (hm : re.findAt (bareLine line) 0 = some m) :
    ∃ x y, line = x ++ y ∧ x ≠ [] ∧ m.start = 0 ∧ m.stop = size x := by
  obtain ⟨ending, hending, hrow⟩ := Text.exists_bareLine hline
  rw [findAt_row h hrow] at hm
  obtain ⟨u, hu, rfl⟩ := Option.map_eq_some_iff.1 hm
  have hu := List.mem_of_mem_head? hu
  have hlt := Pattern.length_lt_of_mem_runs (Pattern.nullable_of_inked h.inked) hu
  obtain ⟨x, hsplit, hpos, _⟩ := Pattern.reaches_of_mem_runs hu
  have hsplit : bareLine line = x ++ u.cursor.rest := hsplit
  refine ⟨x, u.cursor.rest ++ ending, ?_, ?_, rfl, hpos.trans (Nat.zero_add _)⟩
  · rw [← List.append_assoc, ← hsplit, ← hending]
  · rintro rfl
    exact Nat.lt_irrefl _ (hsplit ▸ hlt)

/-- The first of the given lines that has a match. -/
def firstIn (re : Regex) (rows : List (Nat × Text)) : Option Match :=
  rows.findSome? fun r => (re.pattern.matchHere (.origin r.2)).map (.moved r.1)

/-- A search from the end of `a` on passes over `p` and tries the lines of `u`. -/
structure Pending (re : Regex) (t a p u : Text) : Prop where
  text : t = a ++ p ++ u
  ends : u ≠ [] → EndsLine (a ++ p)
  found : re.findAt t (size a) = re.firstIn (located (size (a ++ p)) (lines u))

namespace Pending

variable {t a p line x y v : Text} {m : Match}

include h

theorem start (t : Text) : re.Pending t [] [] t := by
  have hrows : rowsFrom 0 t = located 0 (lines t) := Text.rowsFrom_size_append Text.endsLine_nil t
  refine ⟨rfl, fun _ => Text.endsLine_nil, ?_⟩
  have hfind := findAt_eq_findSome? h (Nat.zero_le (size t))
  rwa [hrows] at hfind

section Step

variable (hp : re.Pending t a p (line ++ v)) (hlines : lines (line ++ v) = line :: lines v)
variable (hline : v ≠ [] → EndsLine line)

include hp hlines

theorem found_of_cons : re.findAt t (size a) =
    ((re.findAt (bareLine line) 0).map (.moved (size (a ++ p)))).or
      (re.firstIn (located (size (a ++ p ++ line)) (lines v))) := by
  have hmem : line ∈ lines (line ++ v) := by
    rw [hlines]
    exact List.mem_cons_self
  obtain ⟨_, _, hrow⟩ := Text.exists_bareLine hmem
  rw [hp.found, hlines, located, firstIn, List.findSome?_cons, findAt_row h hrow,
    Text.size_append (a ++ p)]
  cases re.pattern.matchHere (.origin (bareLine line)) <;> rfl

include hline

theorem pass (hm : re.findAt (bareLine line) 0 = none) : re.Pending t a (p ++ line) v := by
  have hne : line ≠ [] := Text.ne_nil_of_mem_lines (hlines ▸ List.mem_cons_self)
  have hends := hp.ends (List.append_ne_nil_of_left_ne_nil hne v)
  have hfound := found_of_cons h hp hlines
  rw [hm, Option.map_none, Option.none_or] at hfound
  refine ⟨?_, fun hv => ?_, ?_⟩
  · rw [hp.text]
    simp only [List.append_assoc]
  · rw [← List.append_assoc]
    exact hends.append (hline hv)
  · rwa [← List.append_assoc]

theorem take (hsplit : line = x ++ y) (hx : x ≠ []) : re.Pending t (a ++ p ++ x) y v := by
  subst hsplit
  have hends := hp.ends (by simp [hx])
  have htext := hp.text
  have hoffset : size (a ++ p ++ x) ≤ size t := by
    rw [htext]
    simp only [Text.size_append]
    omega
  have hfind := findAt_eq_findSome? h hoffset
  rw [htext, Text.rowsFrom_behind hends hx hlines, ← htext] at hfind
  refine ⟨?_, fun hv => ?_, hfind⟩
  · rw [htext]
    simp only [List.append_assoc]
  · rw [List.append_assoc]
    exact hends.append (hline hv)

end Step

end Pending

/-- What replacing makes of a line: `g` stands in the place of the match, and what follows stays. -/
def replaceLine (re : Regex) (g : Text → Match → Text) (line : Text) : Text :=
  match re.findAt (bareLine line) 0 with
  | none => line
  | some m => g (bareLine line) m ++ Text.after m.stop line

/-- Whether `sub` puts in place of a match what `g` makes of its line and its place in there. -/
def Replaces (re : Regex) (t : Text) (sub : Match → Text) (g : Text → Match → Text) : Prop :=
  ∀ before row after m, t = before ++ (row ++ after) → '\n' ∉ row → re.findAt row 0 = some m →
    sub (m.moved (size before)) = g row m

variable {t : Text} {sub : Match → Text} {g : Text → Match → Text}

include h in
theorem replaceFrom_of_pending (hsub : re.Replaces t sub g) {ls : List Text} {fuel : Nat}
    (hfuel : ls.length < fuel) {a p u : Text} (hp : re.Pending t a p u) (hls : lines u = ls)
    (last : Option Nat) :
    replaceFrom sub t (size a) (re.matchesFrom t fuel (size a) last) =
      p ++ ls.flatMap (re.replaceLine g) := by
  induction ls generalizing fuel a p u last with
  | nil =>
    obtain ⟨fuel, rfl⟩ := Nat.exists_eq_add_one_of_ne_zero (Nat.ne_zero_of_lt hfuel)
    have hnone : re.findAt t (size a) = none := by rw [hp.found, hls, located, firstIn]; rfl
    have hu : u = [] := by rw [← Text.flatten_lines u, hls, List.flatten_nil]
    rw [matchesFrom, nextMatch, hnone, hp.text, hu, List.append_nil]
    exact (Text.after_size_append a p).trans (List.append_nil p).symm
  | cons line rest ih =>
    rw [List.length_cons] at hfuel
    have hmem : line ∈ lines u := hls ▸ List.mem_cons_self
    obtain ⟨v, rfl, rfl, _, hline⟩ := Text.exists_of_lines_eq_cons hls
    have hfound := hp.found_of_cons h hls
    rw [List.flatMap_cons, replaceLine]
    cases hm : re.findAt (bareLine line) 0 with
    | none =>
      rw [ih (by omega) (hp.pass h hls hline hm) rfl, List.append_assoc]
    | some m =>
      obtain ⟨fuel, rfl⟩ := Nat.exists_eq_add_one_of_ne_zero (Nat.ne_zero_of_lt hfuel)
      obtain ⟨x, y, hsplit, hx, hstart, hstop⟩ := exists_of_findAt_bareLine h hmem hm
      obtain ⟨ending, hending, hrow⟩ := Text.exists_bareLine hmem
      have hsize := mt Text.size_eq_zero_iff.1 hx
      rw [hm, Option.map_some, Option.some_or] at hfound
      have hmatch : sub (m.moved (size (a ++ p))) = g (bareLine line) m := by
        refine hsub (a ++ p) (bareLine line) (ending ++ v) m ?_ hrow hm
        rw [hp.text, ← List.append_assoc (bareLine line), ← hending]
      have hslice : Text.slice (size a) (m.moved (size (a ++ p))).start t = p := by
        rw [Match.moved, hstart, Nat.add_zero, Text.size_append, hp.text, List.append_assoc,
          Text.slice_size_append]
      have hnext : (m.moved (size (a ++ p))).stop = size (a ++ p ++ x) := by
        rw [Match.moved, hstop, ← Text.size_append]
      have hafter : Text.after m.stop line = y := by
        rw [hstop, hsplit, Text.after_size_append]
      rw [matchesFrom, nextMatch_of_findAt hfound (by simp only [Match.moved]; omega), replaceFrom,
        hslice, hmatch, hnext, ih (by omega) (hp.take h hls hline hsplit hx) rfl]
      simp only [hafter, List.append_assoc]

include h in
theorem replaceAll_eq_flatMap (hsub : re.Replaces t sub g) :
    re.replaceAll sub t = (lines t).flatMap (re.replaceLine g) := by
  have hlength := Text.length_lines_le t
  exact replaceFrom_of_pending h hsub (by omega) (.start h t) rfl none

end Regex

end Marginalia
