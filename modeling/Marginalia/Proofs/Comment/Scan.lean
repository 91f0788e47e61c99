import Marginalia.Language.Outline
import Marginalia.Proofs.Comment.Plain
import Marginalia.Proofs.Except
import Marginalia.Proofs.Regex.Spelled
import Mathlib.Data.List.Forall2

/-! # Scanning for paired comments

A plain scanner goes through a text character by character and takes the first kind of comments that
has a complete one at the place where it stands. With delimiters that are texts, the search for
paired comments finds the same spans, and none of its jumps passes over a complete comment
(`spans_eq_scan`).
-/

namespace Marginalia

open Text (size first?)

namespace PlainComment

/-- The kind with such delimiters, if they are texts and may be indented. -/
def ofDelimiters? (d : Delimiters) : Option PlainComment :=
  if d.firstColumn then none
  else do return ⟨← Regex.spelled? d.start, ← Regex.spelled? d.stop, d.ignored⟩

/-- The complete comment that starts here, of the first kind that has one. -/
def anyAt? (kinds : List PlainComment) (before rest : Text) : Option Span :=
  kinds.findSome? fun k => k.commentAt? before rest

/-- The comments from a place on; places before the offset `pos` are passed over. -/
def scanFrom (kinds : List PlainComment) (pos : Nat) (before : Text) : Text → List Span
  | [] => []
  | c :: rest =>
    if size before < pos then scanFrom kinds pos (before ++ [c]) rest
    else
      match anyAt? kinds before (c :: rest) with
      | none => scanFrom kinds pos (before ++ [c]) rest
      | some s => s :: scanFrom kinds s.stop (before ++ [c]) rest

def scan (kinds : List PlainComment) (code : Text) : List Span := scanFrom kinds 0 [] code

variable {k : PlainComment} {kinds : List PlainComment} {before rest : Text} {s : Span}

/-! ## What stands at a place -/

/-- A comment is not empty and ends in the code. -/
theorem exists_of_commentAt? (hk : k.Regular) (h : k.commentAt? before rest = some s) :
    ∃ c body tail, rest = c :: (body ++ tail) ∧ s.start = size before ∧
      s.stop = size (before ++ c :: body) := by
  obtain ⟨m, hm⟩ := exists_startMatch? h
  obtain ⟨run, body, hbefore, rfl, hrun, _⟩ := exists_of_startMatch? hm
  rw [commentAt?_append hk hbefore hrun] at h
  split at h
  · cases h
  · obtain ⟨seen, hseen, rfl⟩ := Option.map_eq_some_iff.1 h
    obtain ⟨u, v, rfl, hstops, _⟩ := Text.exists_of_first? hseen
    obtain ⟨rfl, tail, rfl⟩ := of_stopsAt? hstops
    have hne : run ++ k.start ++ u ++ k.stop ≠ [] := by simp [hk.stop_ne]
    obtain ⟨c, body, hbody⟩ := List.exists_cons_of_ne_nil hne
    refine ⟨c, body, tail, ?_, rfl, ?_⟩
    · rw [← List.cons_append, ← hbody]
      simp only [List.append_assoc]
    · rw [← hbody]
      simp only [List.append_assoc]

theorem exists_of_anyAt? (hkinds : ∀ k ∈ kinds, k.Regular) (h : anyAt? kinds before rest = some s) :
    ∃ c body tail, rest = c :: (body ++ tail) ∧ s.start = size before ∧
      s.stop = size (before ++ c :: body) := by
  obtain ⟨k, hk, hspan⟩ := List.exists_of_findSome?_eq_some h
  exact exists_of_commentAt? (hkinds k hk) hspan

/-! ## The next comment of any kind -/

/-- Comments that all start here come before those that start later, whatever their kind is. -/
theorem earliest_or {α : Type} {f g : α → Option Span} {pos : Nat} {ks : List α}
    (hf : ∀ k ∈ ks, ∀ s, f k = some s → s.start = pos)
    (hg : ∀ k ∈ ks, ∀ s, g k = some s → pos < s.start) :
    BlockComment.earliest (ks.filterMap fun k => (f k).or (g k)) =
      (ks.findSome? f).or (BlockComment.earliest (ks.filterMap g)) := by
  induction ks with
  | nil => rfl
  | cons k ks ih =>
    rw [List.forall_mem_cons] at hf hg
    have ih := ih hf.2 hg.2
    have hfound (t : Span) (ht : ks.findSome? f = some t) : t.start = pos := by
      obtain ⟨k, hk, ht⟩ := List.exists_of_findSome?_eq_some ht
      exact hf.2 k hk t ht
    have hlater (t : Span) (ht : BlockComment.earliest (ks.filterMap g) = some t) :
        pos < t.start := by
      obtain ⟨k, hk, ht⟩ := List.mem_filterMap.1 (BlockComment.mem_of_earliest ht)
      exact hg.2 k hk t ht
    rw [List.filterMap_cons, List.findSome?_cons, List.filterMap_cons]
    cases hhere : f k with
    | some s =>
      have hs := hf.1 s hhere
      have hrest (t : Span)
          (ht : (ks.findSome? f).or (BlockComment.earliest (ks.filterMap g)) = some t) :
          ¬ t.start < s.start := by
        rcases Option.or_eq_some_iff.1 ht with ht | ⟨_, ht⟩
        · rw [hfound t ht, hs]
          exact Nat.lt_irrefl _
        · exact Nat.lt_asymm (hs ▸ hlater t ht)
      rw [Option.some_or, BlockComment.earliest, ih]
      split
      · rfl
      · rename_i t ht
        rw [if_neg (hrest t ht)]
        rfl
    | none =>
      rw [Option.none_or]
      cases hg' : g k with
      | none => exact ih
      | some s =>
        have hs := hg.1 s hg'
        rw [BlockComment.earliest, ih, BlockComment.earliest]
        cases hsome : ks.findSome? f with
        | none => rw [Option.none_or, Option.none_or]
        | some t =>
          rw [Option.some_or, Option.some_or]
          exact if_pos (hfound t hsome ▸ hs)

theorem start_of_first? (hk : k.Regular) (h : first? k.commentAt? before rest = some s) :
    size before ≤ s.start := by
  obtain ⟨u, v, rfl, hspan, _⟩ := Text.exists_of_first? h
  obtain ⟨_, _, _, _, hstart, _⟩ := exists_of_commentAt? hk hspan
  rw [hstart, Text.size_append]
  exact Nat.le_add_right _ _

theorem earliest_eq_first? (hkinds : ∀ k ∈ kinds, k.Regular) (before rest : Text) :
    BlockComment.earliest (kinds.filterMap fun k => first? k.commentAt? before rest) =
      first? (anyAt? kinds) before rest := by
  induction rest generalizing before with
  | nil =>
    have hnone : ∀ k ∈ kinds, k.commentAt? before [] = none := by
      refine fun k hk => Option.eq_none_iff_forall_ne_some.2 fun s hs => ?_
      obtain ⟨_, _, _, hrest, _⟩ := exists_of_commentAt? (hkinds k hk) hs
      cases hrest
    have hfilter : (kinds.filterMap fun k => first? k.commentAt? before []) = [] :=
      List.filterMap_eq_nil_iff.2 hnone
    have hany : anyAt? kinds before [] = none := List.findSome?_eq_none_iff.2 hnone
    rw [hfilter, first?, hany]
    rfl
  | cons c rest ih =>
    have hhere (k : PlainComment) (hk : k ∈ kinds) (s : Span)
        (hs : k.commentAt? before (c :: rest) = some s) : s.start = size before := by
      obtain ⟨_, _, _, _, hstart, _⟩ := exists_of_commentAt? (hkinds k hk) hs
      exact hstart
    have hlater (k : PlainComment) (hk : k ∈ kinds) (s : Span)
        (hs : first? k.commentAt? (before ++ [c]) rest = some s) : size before < s.start := by
      have hle := start_of_first? (hkinds k hk) hs
      have hpos := Char.utf8Size_pos c
      rw [Text.size_append, Text.size_cons] at hle
      omega
    simp only [first?]
    rw [earliest_or hhere hlater, ih]
    rfl

theorem scanFrom_append {m : Text} {pos : Nat} (h : size (before ++ m) ≤ pos) :
    scanFrom kinds pos before (m ++ rest) = scanFrom kinds pos (before ++ m) rest := by
  induction m generalizing before with
  | nil => rw [List.nil_append, List.append_nil]
  | cons c m ih =>
    have hpos := Char.utf8Size_pos c
    have hlt : size before < pos := by
      rw [Text.size_append, Text.size_cons] at h
      omega
    have hassoc : before ++ c :: m = before ++ [c] ++ m := by simp
    rw [hassoc] at h
    rw [List.cons_append, scanFrom, if_pos hlt, ih h, ← hassoc]

theorem scanFrom_eq_nil {pos : Nat} (h : first? (anyAt? kinds) before rest = none) :
    scanFrom kinds pos before rest = [] := by
  induction rest generalizing before with
  | nil => rfl
  | cons c rest ih =>
    rw [first?, Option.or_eq_none_iff] at h
    rw [scanFrom, h.1]
    split
    · exact ih h.2
    · exact ih h.2

theorem scanFrom_eq_cons (hkinds : ∀ k ∈ kinds, k.Regular) {pos : Nat} (hpos : pos ≤ size before)
    (h : first? (anyAt? kinds) before rest = some s) :
    ∃ body tail, body ≠ [] ∧ rest = body ++ tail ∧ s.start < s.stop ∧ s.stop = size (before ++ body) ∧
      scanFrom kinds pos before rest = s :: scanFrom kinds s.stop (before ++ body) tail := by
  induction rest generalizing before with
  | nil =>
    obtain ⟨c, body, tail, hrest, _⟩ := exists_of_anyAt? hkinds h
    cases hrest
  | cons c rest ih =>
    rw [scanFrom, if_neg (Nat.not_lt_of_le hpos)]
    rw [first?, Option.or_eq_some_iff] at h
    rcases h with h | ⟨hnone, h⟩
    · obtain ⟨c', body, tail, hrest, hstart, hstop⟩ := exists_of_anyAt? hkinds h
      obtain ⟨rfl, rfl⟩ := List.cons_eq_cons.1 hrest
      have hlt : s.start < s.stop := by
        have hpos := Char.utf8Size_pos c
        rw [hstart, hstop, Text.size_append, Text.size_cons]
        omega
      have hassoc : before ++ c :: body = before ++ [c] ++ body := by simp
      refine ⟨c :: body, tail, List.cons_ne_nil c body, rfl, hlt, hstop, ?_⟩
      rw [h, hassoc]
      exact congrArg _ (scanFrom_append (Nat.le_of_eq (by rw [hstop, hassoc])))
    · have hnext : pos ≤ size (before ++ [c]) := by
        rw [Text.size_append]
        exact Nat.le_add_right_of_le hpos
      obtain ⟨body, tail, _, rfl, hlt, hstop, hscan⟩ := ih hnext h
      refine ⟨c :: body, tail, List.cons_ne_nil c body, rfl, hlt, ?_, ?_⟩
      · simpa using hstop
      · rw [hnone, hscan]
        simp

/-- Whatever stands at a place that is not passed over, the scan is past it afterwards. -/
theorem exists_mem_scanFrom (hkinds : ∀ k ∈ kinds, k.Regular) {pos : Nat} {m : Text}
    (hpos : pos ≤ size (before ++ m)) (h : anyAt? kinds (before ++ m) rest = some s) :
    ∃ t ∈ scanFrom kinds pos before (m ++ rest), t.start ≤ s.start ∧ s.start < t.stop := by
  induction m generalizing before pos with
  | nil =>
    rw [List.append_nil] at hpos h
    obtain ⟨c, body, tail, rfl, hstart, hstop⟩ := exists_of_anyAt? hkinds h
    refine ⟨s, ?_, Nat.le_refl _, ?_⟩
    · rw [List.nil_append, scanFrom, if_neg (Nat.not_lt_of_le hpos), h]
      exact List.mem_cons_self
    · have hc := Char.utf8Size_pos c
      rw [hstart, hstop, Text.size_append, Text.size_cons]
      omega
  | cons c m ih =>
    have hassoc : before ++ c :: m = before ++ [c] ++ m := by simp
    rw [hassoc] at hpos h
    rw [List.cons_append, scanFrom]
    split
    · exact ih hpos h
    · split
      · exact ih hpos h
      · rename_i first hfirst
        obtain ⟨_, _, _, _, hstart, _⟩ := exists_of_anyAt? hkinds hfirst
        obtain ⟨_, _, _, _, hstart', _⟩ := exists_of_anyAt? hkinds h
        rcases Nat.lt_or_ge s.start first.stop with hlt | hge
        · refine ⟨first, List.mem_cons_self, ?_, hlt⟩
          rw [hstart, hstart', List.append_assoc, Text.size_append]
          exact Nat.le_add_right _ _
        · obtain ⟨t, ht, hle⟩ := ih (hstart' ▸ hge) h
          exact ⟨t, List.mem_cons_of_mem _ ht, hle⟩

/-! ## The search and the scan -/

section Search

variable {blocks : List BlockComment} {code : Text}

/-- Kinds whose delimiters are texts, and what their patterns are compiled to. -/
def Spelled : List PlainComment → List BlockComment → Prop :=
  List.Forall₂ fun k b => k.Regular ∧ k.Spells b

theorem Spelled.regular (h : Spelled kinds blocks) : ∀ k ∈ kinds, k.Regular := by
  intro k hk
  induction h with
  | nil => cases hk
  | cons hkb _ ih =>
    rcases List.mem_cons.1 hk with rfl | hk
    · exact hkb.1
    · exact ih hk

theorem Spelled.nextOf_eq (h : Spelled kinds blocks) (before rest : Text) :
    BlockComment.nextOf blocks (before ++ rest) (size before) =
      first? (anyAt? kinds) before rest := by
  have hspans : (blocks.filterMap fun b => b.nextSpan (before ++ rest) (size before)) =
      kinds.filterMap fun k => first? k.commentAt? before rest := by
    induction h with
    | nil => rfl
    | cons hkb _ ih =>
      rw [List.filterMap_cons, List.filterMap_cons, nextSpan_eq_first? hkb.1 hkb.2, ih]
  rw [BlockComment.nextOf, hspans, earliest_eq_first? h.regular]

theorem Spelled.spansFrom_eq (h : Spelled kinds blocks) {fuel : Nat} (hfuel : rest.length < fuel) :
    BlockComment.spansFrom blocks (before ++ rest) fuel (size before) =
      scanFrom kinds (size before) before rest := by
  induction fuel generalizing before rest with
  | zero => exact absurd hfuel (Nat.not_lt_zero _)
  | succ fuel ih =>
    rw [BlockComment.spansFrom, h.nextOf_eq]
    cases hnext : first? (anyAt? kinds) before rest with
    | none =>
      rw [scanFrom_eq_nil hnext]
      split <;> rfl
    | some s =>
      obtain ⟨body, tail, hne, rfl, hlt, hstop, hscan⟩ :=
        scanFrom_eq_cons h.regular (Nat.le_refl (size before)) hnext
      have hmore : size before < size (before ++ (body ++ tail)) := by
        have hpos := Nat.pos_of_ne_zero (mt Text.size_eq_zero_iff.1 hne)
        rw [Text.size_append, Text.size_append]
        omega
      have hless : tail.length < fuel := by
        have hpos := List.length_pos_iff.2 hne
        rw [List.length_append] at hfuel
        omega
      rw [if_pos hmore, hscan]
      simp only [if_pos hlt]
      rw [hstop, ← List.append_assoc, ih hless]

theorem Spelled.spans_eq (h : Spelled kinds blocks) (code : Text) :
    BlockComment.spans blocks code = scan kinds code := by
  have hspans : BlockComment.spansFrom blocks ([] ++ code) (code.length + 1) 0 =
      scanFrom kinds 0 [] code := h.spansFrom_eq (Nat.lt_succ_self code.length)
  exact hspans

end Search

theorem spells_of_compile {d : Delimiters} {b : BlockComment} (hd : ofDelimiters? d = some k)
    (hk : k.Regular) (hb : d.compile = .ok b) : k.Spells b := by
  rw [ofDelimiters?] at hd
  split at hd
  · cases hd
  · rename_i hcolumn
    obtain ⟨start, hstart, hd⟩ := Option.bind_eq_some_iff.1 hd
    obtain ⟨stop, hstop, hd⟩ := Option.bind_eq_some_iff.1 hd
    cases hd
    rw [Delimiters.compile, if_neg hcolumn] at hb
    obtain ⟨comment, hcomment, hb⟩ := exists_of_bind_eq_ok hb
    rw [BlockComment.compile] at hcomment
    obtain ⟨opening, hopening, hcomment⟩ := exists_of_bind_eq_ok hcomment
    obtain ⟨closing, hclosing, hcomment⟩ := exists_of_bind_eq_ok hcomment
    cases hcomment
    have hopening := Regex.pattern_of_compile_opening hstart hk.start_ne hopening
    have hclosing := Regex.pattern_of_compile_closing hstop hk.stop_ne hclosing
    split at hb
    · rename_i hnone
      cases hb
      exact ⟨hopening, hclosing, hnone.symm⟩
    · rename_i hmarks
      cases hb
      exact ⟨hopening, hclosing, hmarks.symm⟩

theorem spelled_of_mapM {ds : List Delimiters} {blocks : List BlockComment}
    (hkinds : ds.mapM ofDelimiters? = some kinds)
    (hblocks : ds.mapM Delimiters.compile = .ok blocks) (hregular : ∀ k ∈ kinds, k.Regular) :
    Spelled kinds blocks := by
  induction ds generalizing kinds blocks with
  | nil =>
    cases hkinds
    cases hblocks
    exact .nil
  | cons d ds ih =>
    rw [List.mapM_cons] at hkinds hblocks
    obtain ⟨k, hk, hkinds⟩ := Option.bind_eq_some_iff.1 hkinds
    obtain ⟨ks, hks, hkinds⟩ := Option.bind_eq_some_iff.1 hkinds
    obtain ⟨b, hb, hblocks⟩ := exists_of_bind_eq_ok hblocks
    obtain ⟨bs, hbs, hblocks⟩ := exists_of_bind_eq_ok hblocks
    cases hkinds
    cases hblocks
    rw [List.forall_mem_cons] at hregular
    exact .cons ⟨hregular.1, spells_of_compile hk hregular.1 hb⟩ (ih hks hbs hregular.2)

/-- The search for paired comments is the plain scan, and a complete comment of any kind is found or
lies in one that starts before it. -/
theorem spans_eq_scan {ds : List Delimiters} {blocks : List BlockComment}
    (hkinds : ds.mapM ofDelimiters? = some kinds) (hblocks : ds.mapM Delimiters.compile = .ok blocks)
    (hregular : ∀ k ∈ kinds, k.Regular) (code : Text) :
    BlockComment.spans blocks code = scan kinds code ∧
      ∀ before rest, before ++ rest = code → ∀ k ∈ kinds, ∀ s, k.commentAt? before rest = some s →
        ∃ t ∈ BlockComment.spans blocks code, t.start ≤ s.start ∧ s.start < t.stop := by
  have hspans := (spelled_of_mapM hkinds hblocks hregular).spans_eq code
  refine ⟨hspans, ?_⟩
  rintro before rest rfl k hk s hs
  obtain ⟨first, hfirst⟩ : ∃ first, anyAt? kinds before rest = some first := by
    refine Option.isSome_iff_exists.1 (List.findSome?_isSome_iff.2 ⟨k, hk, ?_⟩)
    rw [hs]
    rfl
  obtain ⟨_, _, _, _, hstart, _⟩ := exists_of_commentAt? (hregular k hk) hs
  obtain ⟨_, _, _, _, hstart', _⟩ := exists_of_anyAt? hregular hfirst
  rw [hspans, hstart, ← hstart']
  exact exists_mem_scanFrom hregular (Nat.zero_le _) hfirst

/-- A pragma and a comment without an end do not keep a docstring behind them from being found. -/
theorem spans_eq_scan_unterminated :
    let ds : List Delimiters := [
      { start := "\\\x7b-", stop := "-\\\x7d", ignored := some ("#", "#") },
      { start := "'''", stop := "'''" }]
    let kinds : List PlainComment := [
      { start := "\x7b-", stop := "-\x7d", ignored := some ("#", "#") },
      { start := "'''", stop := "'''" }]
    let code : Text := "\x7b-#\n\x7b-\n '''a'''\n"
    ∃ blocks, ds.mapM ofDelimiters? = some kinds ∧ ds.mapM Delimiters.compile = .ok blocks ∧
      (∀ k ∈ kinds, k.Regular) ∧
      BlockComment.spans blocks code = [⟨7, 15, " a"⟩] := by
  intro ds kinds code
  have hkinds : ds.mapM ofDelimiters? = some kinds := by decide +kernel
  have hregular : ∀ k ∈ kinds, k.Regular := by decide +kernel
  obtain ⟨blocks, hblocks, _⟩ : ∃ blocks, ds.mapM Delimiters.compile = .ok blocks ∧ true = true :=
    exists_of_any_toOption (by decide +kernel)
  refine ⟨blocks, hkinds, hblocks, hregular, ?_⟩
  rw [(spans_eq_scan hkinds hblocks hregular code).1]
  decide +kernel

end PlainComment

end Marginalia
