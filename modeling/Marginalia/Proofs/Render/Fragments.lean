import Marginalia.Proofs.Regex.Place
import Marginalia.Proofs.Render.Marks

/-! # Fragments between marks

A marked text is made of clean texts with marks between them. Cut by the divider pattern it gives
back the clean texts, less the newlines next to a mark (`split_of_marked`).
-/

namespace Marginalia.Divider

open Text (Newlines dropNewlines dropEndNewlines size)

variable {delimiter : Text}

/-- No mark starts in the text, whatever follows it, unless only newlines are left. -/
def Clean (delimiter x : Text) : Prop :=
  ∀ z w : Text, z <:+ x → Marks delimiter (z ++ w) → Newlines z

theorem clean_nil : Clean delimiter [] := by
  intro z w hz _
  rw [List.suffix_nil.1 hz]
  exact Text.newlines_nil

theorem Clean.of_suffix {x y : Text} (hy : Clean delimiter y) (h : x <:+ y) : Clean delimiter x :=
  fun z w hz => hy z w (hz.trans h)

theorem Clean.dropNewlines {x : Text} (h : Clean delimiter x) :
    Clean delimiter (dropNewlines x) :=
  h.of_suffix (List.dropWhile_suffix _)

theorem Clean.of_tail {x : Text} (htail : Clean delimiter x.tail)
    (h : ∀ w, Marks delimiter (x ++ w) → Newlines x) : Clean delimiter x := by
  cases x with
  | nil => exact htail
  | cons c x =>
    intro z w hz hmarks
    rcases List.suffix_cons_iff.1 hz with rfl | hz
    · exact h w hmarks
    · exact htail z w hz hmarks

theorem not_marks_of_head {t : Text} (h : t.head? ≠ some '<') (h' : t.head? ≠ some '\n') :
    ¬ Marks delimiter t := by
  rw [Marks, Text.dropNewlines_of_head h']
  exact not_or.2
    ⟨not_startsWith_of_head head?_mark h, not_startsWith_of_head head?_shortMark h⟩

theorem Clean.cons_of_ne {c : Char} {x : Text} (hx : Clean delimiter x) (hc : c ≠ '<') :
    Clean delimiter (c :: x) := by
  refine .of_tail hx fun w hmarks => ?_
  by_cases hnewline : c = '\n'
  · subst hnewline
    rw [Marks, List.cons_append, ← List.singleton_append,
      Text.dropNewlines_append Text.newlines_singleton] at hmarks
    exact Text.newlines_singleton.append (hx x w (List.suffix_refl x) hmarks)
  · exact absurd hmarks (not_marks_of_head (by simpa using hc) (by simpa using hnewline))

theorem Clean.append {s x : Text} (hx : Clean delimiter x) (hs : '<' ∉ s) :
    Clean delimiter (s ++ x) := by
  induction s with
  | nil => exact hx
  | cons c s ih =>
    rw [List.mem_cons, not_or] at hs
    exact (ih hs.2).cons_of_ne (Ne.symm hs.1)

theorem not_marks_of_clean {x : Text} (hx : Clean delimiter x) : ¬ Marks delimiter x := by
  intro hmarks
  have hnewlines := hx x [] (List.suffix_refl x) (by rwa [List.append_nil])
  rw [Marks, Text.dropNewlines_of_newlines hnewlines, List.prefix_nil, List.prefix_nil] at hmarks
  rcases hmarks with h | h <;> cases h

theorem matchHere_eq_none {c : Cursor} (h : ¬ Marks delimiter c.rest) :
    (pattern delimiter).matchHere c = none := by
  cases hmatch : (pattern delimiter).matchHere c with
  | none => rfl
  | some m => exact absurd (marks_of_matchHere hmatch) h

theorem leftmost_of_clean {x : Text} (hx : Clean delimiter x) (pos : Nat) (prev : Option Char) :
    (pattern delimiter).leftmost pos prev x = none := by
  induction x generalizing pos prev with
  | nil => exact matchHere_eq_none (not_marks_of_clean hx)
  | cons c x ih =>
    rw [Pattern.leftmost, matchHere_eq_none (not_marks_of_clean hx), Option.none_or]
    exact ih (hx.of_suffix (List.suffix_cons c x)) _ _

theorem leftmost_of_newlines {x a b rest : Text} (hx : Newlines x) (ha : Newlines a)
    (hb : Newlines b) (hrest : rest.head? ≠ some '\n') (pos : Nat) (prev : Option Char) :
    (pattern delimiter).leftmost pos prev (x ++ (a ++ (mark delimiter ++ (b ++ rest)))) =
      some ⟨pos, pos + size (x ++ (a ++ (mark delimiter ++ b))), []⟩ := by
  have hmatch (c : Cursor) (hc : c.rest = x ++ (a ++ (mark delimiter ++ (b ++ rest)))) :=
    matchHere_of_mark (hx.append ha) hb hrest (hc.trans (List.append_assoc x a _).symm)
  rw [List.append_assoc] at hmatch
  cases htext : x ++ (a ++ (mark delimiter ++ (b ++ rest))) with
  | nil => simp [mark] at htext
  | cons c text => rw [Pattern.leftmost, hmatch _ htext.symm, Option.some_or]

/-- The leftmost match starts with the newlines at the end of the clean text. -/
theorem leftmost_of_mark {x a b rest : Text} (hx : Clean delimiter x) (ha : Newlines a)
    (hb : Newlines b) (hrest : rest.head? ≠ some '\n') (pos : Nat) (prev : Option Char) :
    (pattern delimiter).leftmost pos prev (x ++ (a ++ (mark delimiter ++ (b ++ rest)))) =
      some ⟨pos + size (dropEndNewlines x), pos + size (x ++ (a ++ (mark delimiter ++ b))),
        []⟩ := by
  induction x generalizing pos prev with
  | nil => exact leftmost_of_newlines Text.newlines_nil ha hb hrest pos prev
  | cons c x ih =>
    by_cases hnewlines : Newlines (c :: x)
    · rw [leftmost_of_newlines hnewlines ha hb hrest, Text.dropEndNewlines_of_newlines hnewlines]
      rfl
    · have hnone : ¬ Marks delimiter (c :: x ++ (a ++ (mark delimiter ++ (b ++ rest)))) :=
        fun hmarks => hnewlines (hx _ _ (List.suffix_refl _) hmarks)
      rw [List.cons_append, Pattern.leftmost, ← List.cons_append, matchHere_eq_none hnone,
        Option.none_or, ih (hx.of_suffix (List.suffix_cons c x)),
        Text.dropEndNewlines_cons hnewlines]
      simp only [List.cons_append, Text.size_cons, Nat.add_assoc]

theorem findAt_append (delimiter done rest : Text) :
    ∃ prev, (regex delimiter).findAt (done ++ rest) (size done) =
      (pattern delimiter).leftmost (size done) prev rest := by
  obtain ⟨prev, hcursor⟩ := Cursor.exists_ofOffset_append done rest
  refine ⟨prev, ?_⟩
  rw [Regex.findAt, hcursor]
  exact Regex.findFrom_eq_leftmost (loopsRead_pattern delimiter) _

theorem nextMatch_of_clean {x : Text} (hx : Clean delimiter x) (done : Text) (last : Option Nat) :
    (regex delimiter).nextMatch (done ++ x) (size done) last = none := by
  obtain ⟨prev, hfind⟩ := findAt_append delimiter done x
  rw [Regex.nextMatch, hfind, leftmost_of_clean hx]

theorem nextMatch_of_mark {x a b rest : Text} (hx : Clean delimiter x) (ha : Newlines a)
    (hb : Newlines b) (hrest : rest.head? ≠ some '\n') (done : Text) (last : Option Nat) :
    (regex delimiter).nextMatch (done ++ (x ++ (a ++ (mark delimiter ++ (b ++ rest)))))
        (size done) last =
      some ⟨size (done ++ dropEndNewlines x),
        size (done ++ (x ++ (a ++ (mark delimiter ++ b)))), []⟩ := by
  obtain ⟨prev, hfind⟩ := findAt_append delimiter done
    (x ++ (a ++ (mark delimiter ++ (b ++ rest))))
  rw [leftmost_of_mark hx ha hb hrest, ← Text.size_append, ← Text.size_append] at hfind
  refine Regex.nextMatch_of_findAt hfind ?_ last
  have hmark : size (mark delimiter) ≠ 0 := mt Text.size_eq_zero_iff.1 mark_ne_nil
  have hle := Text.size_dropEndNewlines_le x
  simp only [Text.size_append]
  omega

/-- A text made of clean texts with marks, and newlines around these, between them. -/
inductive Marked (delimiter : Text) : Text → List Text → Prop where
  | last {x : Text} (hx : Clean delimiter x) : Marked delimiter x [x]
  | next {x a b t y : Text} {ys : List Text} (hx : Clean delimiter x) (ha : Newlines a)
    (hb : Newlines b) (ht : Marked delimiter t (y :: ys)) :
    Marked delimiter (x ++ (a ++ (mark delimiter ++ (b ++ t)))) (x :: y :: ys)

/-- What is left of the texts once the newlines next to a mark are dropped. -/
def fragmentsFrom (x : Text) : List Text → List Text
  | [] => [x]
  | y :: ys => dropEndNewlines x :: fragmentsFrom (dropNewlines y) ys

theorem length_fragmentsFrom (x : Text) (xs : List Text) :
    (fragmentsFrom x xs).length = xs.length + 1 := by
  induction xs generalizing x with
  | nil => rfl
  | cons y ys ih => rw [fragmentsFrom, List.length_cons, ih, List.length_cons]

theorem Marked.append {s t a b : Text} {xs ys : List Text} (hs : Marked delimiter s xs)
    (ha : Newlines a) (hb : Newlines b) (ht : Marked delimiter t ys) :
    Marked delimiter (s ++ (a ++ (mark delimiter ++ (b ++ t)))) (xs ++ ys) := by
  obtain ⟨y, ys, rfl⟩ : ∃ y zs, ys = y :: zs := by
    cases ht with
    | last _ => exact ⟨_, _, rfl⟩
    | next _ _ _ _ => exact ⟨_, _, rfl⟩
  induction hs with
  | last hx => exact .next hx ha hb ht
  | next hx ha' hb' _ ih =>
    simp only [List.append_assoc]
    exact .next hx ha' hb' ih

theorem Marked.eq_of_singleton {t x : Text} (h : Marked delimiter t [x]) : x = t := by
  cases h with
  | last _ => rfl

theorem Marked.prepend {s t x : Text} {xs : List Text}
    (hs : ∀ y, Clean delimiter y → Clean delimiter (s ++ y)) (h : Marked delimiter t (x :: xs)) :
    Marked delimiter (s ++ t) ((s ++ x) :: xs) := by
  cases h with
  | last hx => exact .last (hs _ hx)
  | next hx ha hb ht =>
    rw [← List.append_assoc]
    exact .next (hs x hx) ha hb ht

theorem Marked.dropNewlines {t x : Text} {xs : List Text} (h : Marked delimiter t (x :: xs)) :
    Marked delimiter (dropNewlines t) (Text.dropNewlines x :: xs) := by
  cases h with
  | last hx => exact .last hx.dropNewlines
  | next hx ha hb ht =>
    rename_i a b t y ys
    by_cases hnewlines : Newlines x
    · have hmark : (mark delimiter ++ (b ++ t)).head? ≠ some '\n' := by
        change some '<' ≠ some '\n'
        decide
      rw [Text.dropNewlines_of_newlines hnewlines, Text.dropNewlines_append hnewlines,
        Text.dropNewlines_append ha, Text.dropNewlines_of_head hmark]
      exact .next clean_nil Text.newlines_nil hb ht
    · rw [Text.dropNewlines_append_of_not hnewlines]
      exact .next hx.dropNewlines ha hb ht

theorem Marked.length_le {t : Text} {xs : List Text} (h : Marked delimiter t xs) :
    xs.length ≤ t.length + 1 := by
  induction h with
  | last _ => simp
  | next _ _ _ _ ih =>
    have hmark : 0 < (mark delimiter).length := List.length_pos_iff.2 mark_ne_nil
    simp only [List.length_append, List.length_cons] at ih ⊢
    omega

theorem slice_dropEndNewlines (done x rest : Text) :
    Text.slice (size done) (size (done ++ dropEndNewlines x)) (done ++ (x ++ rest)) =
      dropEndNewlines x := by
  obtain ⟨run, _, hrun, _⟩ := Text.exists_dropEndNewlines x
  have hsplit : x ++ rest = dropEndNewlines x ++ (run ++ rest) := by
    rw [← List.append_assoc, ← hrun]
  rw [hsplit, Text.size_append, Text.slice_size_append]

theorem pieces_of_marked {x : Text} {xs : List Text} {fuel : Nat} (hfuel : xs.length ≤ fuel)
    {t : Text} (h : Marked delimiter t (x :: xs)) (done : Text) (last : Option Nat) :
    Regex.piecesFrom (done ++ t) (size done)
        ((regex delimiter).matchesFrom (done ++ t) (fuel + 1) (size done) last) =
      fragmentsFrom x xs := by
  induction xs generalizing x done t last fuel with
  | nil =>
    cases h with
    | last hx =>
      rw [Regex.matchesFrom, nextMatch_of_clean hx, Regex.piecesFrom, Text.after_size_append]
      rfl
  | cons y ys ih =>
    obtain ⟨fuel, rfl⟩ : ∃ n, fuel = n + 1 :=
      Nat.exists_eq_succ_of_ne_zero (Nat.ne_zero_of_lt hfuel)
    cases h with
    | next hx ha hb ht =>
      rename_i a b t
      -- The match takes the newlines that `t` starts with along.
      obtain ⟨more, hmore, htail, hhead⟩ := Text.exists_dropNewlines t
      have hmatch := nextMatch_of_mark hx ha (hb.append hmore) hhead done last
      rw [List.append_assoc, ← htail] at hmatch
      have hdone : done ++ (x ++ (a ++ (mark delimiter ++ (b ++ t)))) =
          (done ++ (x ++ (a ++ (mark delimiter ++ (b ++ more))))) ++ Text.dropNewlines t := by
        simp only [List.append_assoc]
        rw [← htail]
      rw [Regex.matchesFrom, hmatch, Regex.piecesFrom, slice_dropEndNewlines, fragmentsFrom, hdone,
        ih (Nat.le_of_succ_le_succ hfuel) ht.dropNewlines]

/-- The divider pattern cuts a marked text into its clean texts. -/
theorem split_of_marked {t x : Text} {xs : List Text} (h : Marked delimiter t (x :: xs)) :
    (regex delimiter).split t = fragmentsFrom x xs := by
  have hlength := h.length_le
  rw [List.length_cons] at hlength
  exact pieces_of_marked (by omega) h [] none

end Marginalia.Divider
