import Marginalia.Proofs.Comment.Block
import Marginalia.Proofs.Regex.Delimiter
import Mathlib.Tactic.MkIffOfInductiveProp

/-! # Paired comments with plain delimiters

Where the delimiters are texts, a comment is told by what stands at the start of its line. The search
for the next comment of a kind passes over starts that are ignored, gives up at a start without an
end, and goes on behind an end that is ignored; it still finds the first place where a whole comment
stands (`nextSpan_eq_first?`).
-/

namespace Marginalia

open Text (EndsLine size isIndentChar afterHead? startsWith endsWith first?)

/-- A kind of paired comments whose delimiters are texts. -/
structure PlainComment where
  start : Text
  stop : Text
  /-- The text right after a start, and the text right before an end, that disqualify it. -/
  ignored : Option (Text × Text) := none
  deriving DecidableEq

namespace PlainComment

variable (k : PlainComment)

/-- A start delimiter is part of a row that it does not indent, and ends that are passed over do not
overlap with the next one. -/
@[mk_iff]
structure Regular : Prop where
  start_ne : k.start ≠ []
  row : '\n' ∉ k.start
  flush : k.start.head?.any isIndentChar = false
  stop_ne : k.stop ≠ []
  apart : k.ignored.isSome → ∀ n < k.stop.length, 0 < n → ¬ k.stop.drop n <+: k.stop

instance : Decidable k.Regular := decidable_of_iff' _ (regular_iff k)

def skipsOpening (body : Text) : Bool := k.ignored.any fun marks => startsWith marks.1 body

def skipsClosing (before : Text) : Bool := k.ignored.any fun marks => endsWith marks.2 before

/-- The code up to an end delimiter, if one stands here that is not disqualified. -/
def stopsAt? (before rest : Text) : Option Text :=
  if k.stop <+: rest ∧ k.skipsClosing before = false then some before else none

/-- The complete comment that starts here: at a line start, after spaces and tabs. -/
def commentAt? (before rest : Text) : Option Span :=
  if EndsLine before then
    let indentation := rest.takeWhile isIndentChar
    let opening := before ++ indentation ++ k.start
    match afterHead? k.start (rest.dropWhile isIndentChar) with
    | none => none
    | some body =>
      if k.skipsOpening body then none
      else (first? k.stopsAt? opening body).map fun seen =>
        ⟨size before, size (seen ++ k.stop), indentation ++ seen.drop opening.length⟩
  else none

/-- The kind of comments has these delimiters. -/
structure Spells (k : PlainComment) (b : BlockComment) : Prop where
  opening : b.opening.pattern =
    .sequence (.look .lineStart :: .group 1 .indent :: k.start.map .char)
  closing : b.closing.pattern = .sequence (k.stop.map .char)
  ignored : b.ignored = k.ignored

variable {k : PlainComment} {b : BlockComment} {before rest : Text}

/-! ## The end of a comment -/

/-- The match of an end delimiter that stands here, disqualified or not. -/
def stopMatch? (k : PlainComment) (before rest : Text) : Option Match :=
  if k.stop <+: rest then some ⟨size before, size (before ++ k.stop), []⟩ else none

theorem stopsAt?_eq_none (h : k.stopMatch? before rest = none) : k.stopsAt? before rest = none := by
  rw [stopMatch?] at h
  split at h
  · cases h
  · rename_i hstands
    exact if_neg fun hstop => hstands hstop.1

theorem of_stopsAt? {seen : Text} (h : k.stopsAt? before rest = some seen) :
    seen = before ∧ k.stop <+: rest := by
  rw [stopsAt?] at h
  split at h
  · rename_i hstop
    exact ⟨(Option.some.inj h).symm, hstop.1⟩
  · cases h

theorem Spells.findAt_closing (hb : k.Spells b) (before rest : Text) :
    b.closing.findAt (before ++ rest) (size before) = first? k.stopMatch? before rest := by
  have hloops : b.closing.pattern.loopsRead = true := by
    rw [hb.closing]
    refine Pattern.loopsRead_sequence fun p hp => ?_
    obtain ⟨c, _, rfl⟩ := List.mem_map.1 hp
    rfl
  rw [Regex.findAt_eq_first? hloops, hb.closing]
  simp only [Pattern.matchHere_literal]
  rfl

/-- An end delimiter that is passed over has no other one inside of it. -/
theorem Regular.stopsAt?_inside (hk : k.Regular) (hskips : k.skipsClosing before = true)
    {u v : Text} (hstop : k.stop = u ++ v) (hv : v ≠ []) :
    k.stopsAt? (before ++ u) (v ++ rest) = none := by
  rw [stopsAt?, if_neg]
  rintro ⟨hstands, hends⟩
  cases u with
  | nil =>
    rw [List.append_nil, hskips] at hends
    cases hends
  | cons c u =>
    have hignored : k.ignored.isSome = true := by
      rw [skipsClosing] at hskips
      cases hmarks : k.ignored with
      | none => simp [hmarks] at hskips
      | some marks => rfl
    have hdrop : k.stop.drop (c :: u).length = v := by rw [hstop, List.drop_left]
    have hlength := congrArg List.length hstop
    rw [List.length_append] at hlength
    have hpos := List.length_pos_iff.2 hv
    refine hk.apart hignored (c :: u).length (by omega) (by simp) ?_
    rw [hdrop]
    exact List.prefix_of_prefix_length_le (List.prefix_append v rest) hstands (by omega)

theorem closingFrom_eq (hk : k.Regular) (hb : k.Spells b) {fuel : Nat}
    (hfuel : rest.length < fuel) :
    b.closingFrom (before ++ rest) fuel (size before) =
      (first? k.stopsAt? before rest).map fun seen => ⟨size seen, size (seen ++ k.stop), []⟩ := by
  induction fuel generalizing before rest with
  | zero => exact absurd hfuel (Nat.not_lt_zero _)
  | succ fuel ih =>
    have hsize : ¬ size (before ++ rest) < size before := by
      rw [Text.size_append]
      omega
    rw [BlockComment.closingFrom, if_neg hsize, hb.findAt_closing]
    cases hm : first? k.stopMatch? before rest with
    | none =>
      have hnone : first? k.stopsAt? before rest = none :=
        Text.first?_eq_none_iff.2 fun s t hst =>
          stopsAt?_eq_none (Text.first?_eq_none_iff.1 hm s t hst)
      rw [hnone]
      rfl
    | some m =>
      obtain ⟨s, t, rfl, hfound, hpassed⟩ := Text.exists_of_first? hm
      rw [stopMatch?] at hfound
      split at hfound
      · rename_i hstands
        obtain ⟨t, rfl⟩ := hstands
        obtain rfl := Option.some.inj hfound
        have hskips : b.skipsClosing (before ++ (s ++ (k.stop ++ t))) (size (before ++ s)) =
            k.skipsClosing (before ++ s) := by
          rw [BlockComment.skipsClosing, ← List.append_assoc, Text.upTo_size_append, hb.ignored,
            skipsClosing]
        have hgo : first? k.stopsAt? before (s ++ (k.stop ++ t)) =
            first? k.stopsAt? (before ++ s) (k.stop ++ t) :=
          Text.first?_append fun u v hs hv => stopsAt?_eq_none (hpassed u v hs hv)
        simp only [hskips]
        cases hdisqualified : k.skipsClosing (before ++ s) with
        | false =>
          have hstops : k.stopsAt? (before ++ s) (k.stop ++ t) = some (before ++ s) :=
            if_pos ⟨List.prefix_append _ _, hdisqualified⟩
          rw [hgo, Text.first?_of_some hstops]
          rfl
        | true =>
          have hread : size (before ++ s) < size (before ++ s ++ k.stop) := by
            have hpos := Nat.pos_of_ne_zero (mt Text.size_eq_zero_iff.1 hk.stop_ne)
            rw [Text.size_append _ k.stop]
            omega
          have hfull : (Match.mk (size (before ++ s)) (size (before ++ s ++ k.stop)) []).isEmpty =
              false := beq_false_of_ne (Nat.ne_of_lt hread)
          have hpass : first? k.stopsAt? (before ++ s) (k.stop ++ t) =
              first? k.stopsAt? (before ++ s ++ k.stop) t :=
            Text.first?_append fun u v hstop hv => hk.stopsAt?_inside hdisqualified hstop hv
          have hcode : before ++ (s ++ (k.stop ++ t)) = before ++ s ++ k.stop ++ t := by
            simp only [List.append_assoc]
          have hless : t.length < fuel := by
            have hpos := List.length_pos_iff.2 hk.stop_ne
            simp only [List.length_append] at hfuel
            omega
          rw [hgo, hpass, hfull, hcode]
          exact ih hless
      · cases hfound

theorem closing?_eq (hk : k.Regular) (hb : k.Spells b) (before rest : Text) :
    b.closing? (before ++ rest) (size before) =
      (first? k.stopsAt? before rest).map fun seen => ⟨size seen, size (seen ++ k.stop), []⟩ := by
  refine closingFrom_eq hk hb ?_
  rw [List.length_append]
  omega

/-! ## The start of a comment -/

theorem not_endsLine_append {row : Text} (hrow : '\n' ∉ row) (hne : row ≠ []) (before : Text) :
    ¬ EndsLine (before ++ row) := by
  intro hends
  obtain ⟨c, hc⟩ := Option.ne_none_iff_exists'.1 (mt List.getLast?_eq_none_iff.1 hne)
  obtain rfl := hends.of_append c hc
  exact hrow (List.mem_of_getLast? hc)

/-- The match of a start delimiter that stands here, ignored or not. -/
def startMatch? (k : PlainComment) (before rest : Text) : Option Match :=
  let indentation := rest.takeWhile isIndentChar
  if EndsLine before ∧ k.start <+: rest.dropWhile isIndentChar then
    some ⟨size before, size (before ++ indentation ++ k.start),
      [⟨1, size before, size (before ++ indentation)⟩]⟩
  else none

theorem Spells.findAt_opening (hk : k.Regular) (hb : k.Spells b) (before rest : Text) :
    b.opening.findAt (before ++ rest) (size before) = first? k.startMatch? before rest := by
  have hloops : b.opening.pattern.loopsRead = true := by
    rw [hb.opening]
    refine Pattern.loopsRead_sequence fun p hp => ?_
    simp only [List.mem_cons, List.mem_map] at hp
    rcases hp with rfl | rfl | ⟨c, _, rfl⟩ <;> rfl
  rw [Regex.findAt_eq_first? hloops, hb.opening]
  refine Text.first?_congr fun s t _ => ?_
  obtain ⟨run, tail, rfl, hrun, htail⟩ := Text.exists_leading Text.isIndentChar t
  obtain ⟨htake, hdrop⟩ := Text.takeWhile_leading hrun htail
  rw [Pattern.matchHere_opening hk.start_ne hk.flush hrun htail, startMatch?, htake, hdrop]

/-- What a start delimiter tells, if it stands here: a comment, unless it is ignored or there is no
end delimiter. -/
theorem commentAt?_append (hk : k.Regular) (hbefore : EndsLine before) {run body : Text}
    (hrun : ∀ c ∈ run, isIndentChar c = true) :
    k.commentAt? before (run ++ (k.start ++ body)) =
      if k.skipsOpening body then none
      else (first? k.stopsAt? (before ++ run ++ k.start) body).map fun seen =>
        ⟨size before, size (seen ++ k.stop),
          run ++ seen.drop (before ++ run ++ k.start).length⟩ := by
  have hflush : (k.start ++ body).head?.any isIndentChar = false := by
    obtain ⟨c, start, hstart⟩ := List.exists_cons_of_ne_nil hk.start_ne
    have hflush := hk.flush
    rw [hstart] at hflush ⊢
    exact hflush
  obtain ⟨htake, hdrop⟩ := Text.takeWhile_leading hrun hflush
  rw [commentAt?, if_pos hbefore]
  simp only [htake, hdrop, Text.afterHead?_eq_some_iff.2 (rfl : k.start ++ body = k.start ++ body)]

theorem exists_of_startMatch? {m : Match} (h : k.startMatch? before rest = some m) :
    ∃ run body, EndsLine before ∧ rest = run ++ (k.start ++ body) ∧
      (∀ c ∈ run, isIndentChar c = true) ∧
      m = ⟨size before, size (before ++ run ++ k.start),
        [⟨1, size before, size (before ++ run)⟩]⟩ := by
  rw [startMatch?] at h
  split at h
  · rename_i hmatch
    obtain ⟨hbefore, body, hbody⟩ := hmatch
    refine ⟨rest.takeWhile isIndentChar, body, hbefore, ?_, List.all_eq_true.1 List.all_takeWhile,
      (Option.some.inj h).symm⟩
    rw [hbody, List.takeWhile_append_dropWhile]
  · cases h

theorem exists_startMatch? {s : Span} (h : k.commentAt? before rest = some s) :
    ∃ m, k.startMatch? before rest = some m := by
  rw [commentAt?] at h
  split at h
  · rename_i hbefore
    dsimp only at h
    split at h
    · cases h
    · rename_i body hbody
      have hstands : k.start <+: rest.dropWhile isIndentChar :=
        ⟨body, (Text.afterHead?_eq_some_iff.1 hbody).symm⟩
      rw [startMatch?, if_pos ⟨hbefore, hstands⟩]
      exact ⟨_, rfl⟩
  · cases h

theorem commentAt?_eq_none (h : k.startMatch? before rest = none) :
    k.commentAt? before rest = none := by
  refine Option.eq_none_iff_forall_ne_some.2 fun s hs => ?_
  obtain ⟨m, hm⟩ := exists_startMatch? hs
  rw [h] at hm
  cases hm

/-- A place that is inside of a start delimiter or right behind it is no line start. -/
theorem Regular.commentAt?_inside (hk : k.Regular) {run u v : Text}
    (hrun : ∀ c ∈ run, isIndentChar c = true) (huv : run ++ k.start = u ++ v) (hu : u ≠ []) :
    k.commentAt? (before ++ u) rest = none := by
  refine if_neg (not_endsLine_append (fun hmem => ?_) hu before)
  have hmem : '\n' ∈ run ++ k.start := huv ▸ List.mem_append_left v hmem
  rcases List.mem_append.1 hmem with hmem | hmem
  · exact absurd (hrun _ hmem) (by decide)
  · exact hk.row hmem

theorem Regular.commentAt?_behind (hk : k.Regular) {run : Text}
    (hrun : ∀ c ∈ run, isIndentChar c = true) :
    k.commentAt? (before ++ run ++ k.start) rest = none := by
  rw [List.append_assoc]
  refine hk.commentAt?_inside hrun (List.append_nil _).symm ?_
  exact mt List.append_eq_nil_iff.1 fun h => hk.start_ne h.2

/-- A start delimiter without a comment is passed over as a whole. -/
theorem Regular.first?_commentAt?_pass (hk : k.Regular) {run body : Text}
    (hrun : ∀ c ∈ run, isIndentChar c = true)
    (hnone : k.commentAt? before (run ++ (k.start ++ body)) = none) :
    first? k.commentAt? before (run ++ (k.start ++ body)) =
      first? k.commentAt? (before ++ run ++ k.start) body := by
  rw [← List.append_assoc] at hnone ⊢
  rw [List.append_assoc before]
  refine Text.first?_append fun u v huv _ => ?_
  by_cases hu : u = []
  · subst hu
    rw [List.append_nil, ← List.nil_append v, ← huv]
    exact hnone
  · exact hk.commentAt?_inside hrun huv hu

/-- Behind a start delimiter without an end there is no complete comment. -/
theorem Regular.commentAt?_after (hk : k.Regular) {body : Text}
    (hstop : first? k.stopsAt? before body = none) : first? k.commentAt? before body = none := by
  refine Text.first?_eq_none_iff.2 fun s t hst => Option.eq_none_iff_forall_ne_some.2 ?_
  intro span hspan
  obtain ⟨m, hm⟩ := exists_startMatch? hspan
  obtain ⟨run, body, hbefore, rfl, hrun, _⟩ := exists_of_startMatch? hm
  rw [commentAt?_append hk hbefore hrun] at hspan
  split at hspan
  · cases hspan
  · obtain ⟨seen, hseen, _⟩ := Option.map_eq_some_iff.1 hspan
    obtain ⟨u, v, rfl, hstops, _⟩ := Text.exists_of_first? hseen
    have hnone := Text.first?_eq_none_iff.1 hstop (s ++ run ++ k.start ++ u) v (by simp [hst])
    simp only [List.append_assoc] at hnone hstops
    rw [hstops] at hnone
    cases hnone

theorem advance_append (before : Text) (c : Char) (rest : Text) :
    BlockComment.advance (before ++ c :: rest) (size before) = size (before ++ [c]) := by
  rw [BlockComment.advance, Text.after_size_append, Text.size_append _ [c]]
  rfl

/-- What the search makes of a start and an end delimiter: the indentation and the text between. -/
theorem docs_eq (before run start body rest : Text) :
    ((Match.mk (size before) (size (before ++ run ++ start))
        [⟨1, size before, size (before ++ run)⟩]).group?
          (before ++ run ++ start ++ (body ++ rest)) 1).getD [] ++
      Text.slice (size (before ++ run ++ start)) (size (before ++ run ++ start ++ body))
        (before ++ run ++ start ++ (body ++ rest)) = run ++ body := by
  have hsplit : before ++ run ++ start ++ (body ++ rest) =
      before ++ (run ++ (start ++ (body ++ rest))) := by simp only [List.append_assoc]
  have hgroup : (Match.mk (size before) (size (before ++ run ++ start))
      [⟨1, size before, size (before ++ run)⟩]).group?
        (before ++ run ++ start ++ (body ++ rest)) 1 = some run := by
    rw [hsplit, Text.size_append before run]
    exact congrArg some (Text.slice_size_append before run _)
  rw [hgroup, Option.getD_some, Text.size_append _ body, Text.slice_size_append]

theorem spanFrom_eq (hk : k.Regular) (hb : k.Spells b) {fuel : Nat} (hfuel : rest.length < fuel) :
    b.spanFrom (before ++ rest) fuel (size before) = first? k.commentAt? before rest := by
  induction fuel generalizing before rest with
  | zero => exact absurd hfuel (Nat.not_lt_zero _)
  | succ fuel ih =>
    have hsize : ¬ size (before ++ rest) < size before := by
      rw [Text.size_append]
      omega
    rw [BlockComment.spanFrom, if_neg hsize, hb.findAt_opening hk]
    cases hm : first? k.startMatch? before rest with
    | none =>
      exact (Text.first?_eq_none_iff.2 fun s t hst =>
        commentAt?_eq_none (Text.first?_eq_none_iff.1 hm s t hst)).symm
    | some m =>
      obtain ⟨s, t, rfl, hfound, hpassed⟩ := Text.exists_of_first? hm
      obtain ⟨run, body, hbefore, rfl, hrun, rfl⟩ := exists_of_startMatch? hfound
      have hgo : first? k.commentAt? before (s ++ (run ++ (k.start ++ body))) =
          first? k.commentAt? (before ++ s) (run ++ (k.start ++ body)) :=
        Text.first?_append fun u v huv hv => commentAt?_eq_none (hpassed u v huv hv)
      have hlength : body.length < fuel := by
        have hpos := List.length_pos_iff.2 hk.start_ne
        simp only [List.length_append] at hfuel
        omega
      have hcode : before ++ (s ++ (run ++ (k.start ++ body))) =
          before ++ s ++ run ++ k.start ++ body := by simp only [List.append_assoc]
      rw [hgo, hcode]
      -- From here on, the comment that may stand at the end of `before`.
      generalize before ++ s = before at hbefore
      have hskips : b.skipsOpening (before ++ run ++ k.start ++ body)
          (size (before ++ run ++ k.start)) = k.skipsOpening body := by
        rw [BlockComment.skipsOpening, Text.after_size_append, hb.ignored, skipsOpening]
      have hclosing := closing?_eq hk hb (before ++ run ++ k.start) body
      have hhere : k.commentAt? before (run ++ (k.start ++ body)) = _ :=
        commentAt?_append hk hbefore hrun
      simp only [hskips, hclosing]
      cases hskip : k.skipsOpening body with
      | true =>
        rw [hskip, if_pos rfl] at hhere
        rw [if_pos rfl, hk.first?_commentAt?_pass hrun hhere]
        cases body with
        | nil => rw [List.append_nil, if_pos (Nat.le_refl _), Text.first?, hk.commentAt?_behind hrun]
        | cons c body =>
          have hmore : ¬ size (before ++ run ++ k.start ++ c :: body) ≤
              size (before ++ run ++ k.start) := by
            have hpos := Char.utf8Size_pos c
            rw [Text.size_append _ (c :: body), Text.size_cons]
            omega
          have hcode : before ++ run ++ k.start ++ c :: body =
              before ++ run ++ k.start ++ [c] ++ body := by simp
          rw [if_neg hmore, advance_append, Text.first?, hk.commentAt?_behind hrun, Option.none_or,
            hcode]
          exact ih (Nat.lt_of_succ_lt hlength)
      | false =>
        rw [hskip, if_neg Bool.false_ne_true] at hhere
        rw [if_neg Bool.false_ne_true]
        cases hstop : first? k.stopsAt? (before ++ run ++ k.start) body with
        | none =>
          rw [hstop] at hhere
          rw [hk.first?_commentAt?_pass hrun hhere, hk.commentAt?_after hstop]
          rfl
        | some seen =>
          rw [hstop, Option.map_some] at hhere
          obtain ⟨u, v, rfl, hstops, _⟩ := Text.exists_of_first? hstop
          obtain ⟨rfl, _⟩ := of_stopsAt? hstops
          rw [Text.first?_of_some hhere, List.drop_left]
          simp only [Option.map_some, docs_eq]

theorem nextSpan_eq_first? (hk : k.Regular) (hb : k.Spells b) (before rest : Text) :
    b.nextSpan (before ++ rest) (size before) = first? k.commentAt? before rest := by
  refine spanFrom_eq hk hb ?_
  rw [List.length_append]
  omega

end PlainComment

end Marginalia
