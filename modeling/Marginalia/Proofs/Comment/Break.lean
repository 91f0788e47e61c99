import Marginalia.Proofs.Regex.Break
import Marginalia.Proofs.Section.Break
import Mathlib.Data.List.Basic

/-! # Comments with line breaks of two characters

Line comments and paired comments are found in the same places of both forms of a text, if neither
their delimiters nor the marks that disqualify them have anything to do with line breaks.
-/

namespace Marginalia

open Text (Boundary crlf shift size lines after)

namespace InlineComment

variable {c : InlineComment}

/-- The delimiter has no character of a line break. -/
@[mk_iff]
structure Unbroken (c : InlineComment) : Prop where
  newline : '\n' ∉ c.delimiter
  carriageReturn : '\r' ∉ c.delimiter

instance (c : InlineComment) : Decidable c.Unbroken := decidable_of_iff' _ (unbroken_iff c)

theorem isIgnored_crlf {t line before body : Text} (hline : line ∈ lines t)
    (hbody : line = before ++ body) : c.isIgnored (crlf body) = c.isIgnored body := by
  obtain ⟨row, hrow, hends⟩ := Text.exists_row_of_mem_lines hline
  have hbare : '\n' ∉ Text.dropEndWhile (fun d => d == '\n' || d == '\r') body := by
    intro hmem
    rcases List.eq_nil_or_concat body with rfl | ⟨init, last, rfl⟩
    · cases Text.mem_of_mem_dropEndWhile hmem
    · rw [List.concat_eq_append] at hbody hmem
      rcases hends with rfl | rfl
      · refine hrow ?_
        rw [hbody]
        exact List.mem_append_right _ (Text.mem_of_mem_dropEndWhile hmem)
      · rw [← List.append_assoc] at hbody
        obtain ⟨rfl, hlast⟩ := List.append_inj' hbody rfl
        obtain rfl := List.singleton_inj.1 hlast
        rw [Text.dropEndWhile_concat, if_pos (by decide)] at hmem
        exact hrow (List.mem_append_right _ (Text.mem_of_mem_dropEndWhile hmem))
  rw [isIgnored, Text.dropEndWhile_crlf rfl rfl, Text.crlf_eq_self hbare, isIgnored]

theorem body?_crlf (hc : c.Unbroken) {t line : Text} (hline : line ∈ lines t) :
    c.body? (crlf line) = (c.body? line).map crlf := by
  rw [body?, body?, Text.dropWhile_crlf rfl, Text.afterHead?_crlf hc.newline hc.carriageReturn]
  cases hbody : Text.afterHead? c.delimiter (line.dropWhile Text.isIndentChar) with
  | none => rfl
  | some body =>
    have hsplit : line = (line.takeWhile Text.isIndentChar ++ c.delimiter) ++ body := by
      rw [List.append_assoc, ← Text.afterHead?_eq_some_iff.1 hbody, List.takeWhile_append_dropWhile]
    simp only [Option.map_some, isIgnored_crlf hline hsplit]
    split <;> rfl

theorem spansFrom_crlf (hc : c.Unbroken) {code done : Text} {run : Option Span} {ls : List Text}
    (hls : ∀ line ∈ ls, line ∈ lines code) (hcode : code = done ++ ls.flatten) :
    c.spansFrom (size (crlf done)) (run.map (Span.crlf code)) (ls.map crlf) =
      (c.spansFrom (size done) run ls).map (Span.crlf code) := by
  induction ls generalizing done run with
  | nil => cases run <;> rfl
  | cons line rest ih =>
    rw [List.forall_mem_cons] at hls
    have hcode' : code = (done ++ line) ++ rest.flatten := by
      rw [hcode, List.flatten_cons, List.append_assoc]
    have hstart : shift code (size done) = size (crlf done) := by
      rw [hcode, Text.shift_size_append]
    have hstop : shift code (size (done ++ line)) = size (crlf (done ++ line)) := by
      rw [hcode', Text.shift_size_append]
    have ih (run : Option Span) :
        c.spansFrom (size (crlf (done ++ line))) (run.map (Span.crlf code)) (rest.map crlf) =
          (c.spansFrom (size (done ++ line)) run rest).map (Span.crlf code) := ih hls.2 hcode'
    rw [List.map_cons, spansFrom, spansFrom, ← Text.size_append, ← Text.size_append,
      ← Text.crlf_append, body?_crlf hc hls.1]
    cases hbody : c.body? line with
    | none =>
      simp only [Option.map_none, List.map_append, ← ih none]
      cases run <;> rfl
    | some body =>
      simp only [Option.map_some, ← ih]
      cases run with
      | none => simp only [Option.map_none, Span.crlf, hstart, hstop]
      | some span => simp only [Option.map_some, Span.crlf, hstop, Text.crlf_append]

theorem spans_crlf (hc : c.Unbroken) (code : Text) :
    c.spans (crlf code) = (c.spans code).map (Span.crlf code) := by
  have hcode : code = [] ++ (lines code).flatten := (Text.flatten_lines code).symm
  have hspans : c.spansFrom 0 ((none : Option Span).map (Span.crlf code)) ((lines code).map crlf) =
      (c.spansFrom 0 none (lines code)).map (Span.crlf code) :=
    spansFrom_crlf hc (fun _ hline => hline) hcode
  rw [spans, Text.lines_crlf]
  exact hspans

theorem extract_crlf (hc : c.Unbroken) (sections : List Section) :
    c.extract (sections.map .crlf) = (c.extract sections).map .crlf := by
  rw [extract, extract]
  exact Section.flatMap_splitBySpans_crlf (spans_crlf hc) (orderly_spans c) sections

end InlineComment

theorem Regex.start_lt_stop_of_findAt {re : Regex} (hloops : re.pattern.loopsRead = true)
    (hread : re.pattern.nullable = false) {t : Text} {offset : Nat} {m : Match}
    (h : re.findAt t offset = some m) : m.start < m.stop := by
  rw [findAt, findFrom_eq_leftmost hloops] at h
  obtain ⟨c, u, _, hu, rfl⟩ := Pattern.exists_of_leftmost h
  have hlength := Pattern.length_lt_of_mem_runs hread hu
  obtain ⟨taken, hrest, hpos, _⟩ := Pattern.reaches_of_mem_runs hu
  have hsize := Text.length_le_size taken
  simp only [Thread.start] at hlength hrest hpos
  rw [hrest, List.length_append] at hlength
  simp only [Match.ofThread, hpos]
  omega

namespace BlockComment

/-- No part of the comment's syntax has to do with line breaks, and ends are not empty. -/
@[mk_iff]
structure Unbroken (b : BlockComment) : Prop where
  opening : b.opening.pattern.Unbroken
  closing : b.closing.pattern.Unbroken
  reads : b.closing.pattern.nullable = false
  starts : ∀ marks ∈ b.ignored, marks.1 ≠ [] ∧ '\n' ∉ marks.1 ∧ '\r' ∉ marks.1
  stops : ∀ marks ∈ b.ignored, '\n' ∉ marks.2

instance (b : BlockComment) : Decidable b.Unbroken := decidable_of_iff' _ (unbroken_iff b)

variable {b : BlockComment} {code : Text} {pos : Nat}

theorem exists_of_closingFrom {fuel : Nat} {m : Match} (h : b.closingFrom code fuel pos = some m) :
    ∃ offset, b.closing.findAt code offset = some m := by
  induction fuel generalizing pos with
  | zero => cases h
  | succ fuel ih =>
    rw [closingFrom] at h
    split at h
    · cases h
    · split at h
      · cases h
      · rename_i found hfound
        split at h
        · obtain rfl := Option.some.inj h
          exact ⟨pos, hfound⟩
        · split at h
          · exact ih h
          · split at h
            · exact ih h
            · cases h

theorem start_lt_stop_of_nextSpan (hb : b.Unbroken) {s : Span}
    (h : b.nextSpan code pos = some s) : s.start < s.stop := by
  obtain ⟨_, m, e, _, _, hm, he, rfl⟩ := exists_of_spanFrom h
  obtain ⟨_, hclosing⟩ := exists_of_closingFrom he
  have hread := Regex.start_lt_stop_of_findAt hb.closing.loopsRead hb.reads hclosing
  have hstart := Regex.start_le_stop_of_findAt hm
  have hbody := (bounds_of_closing? he).1
  change m.start < e.stop
  omega

theorem skipsOpening_crlf (hb : b.Unbroken) {stop : Nat} (hstop : Boundary code stop) :
    b.skipsOpening (crlf code) (shift code stop) = b.skipsOpening code stop := by
  rw [skipsOpening, skipsOpening, Text.after_shift hstop]
  cases hmarks : b.ignored with
  | none => rfl
  | some marks =>
    obtain ⟨_, hnewline, hreturn⟩ := hb.starts marks hmarks
    exact Text.startsWith_crlf hnewline hreturn _

theorem skipsClosing_crlf (hb : b.Unbroken) {start : Nat} (hstart : Boundary code start) :
    b.skipsClosing (crlf code) (shift code start) = b.skipsClosing code start := by
  rw [skipsClosing, skipsClosing, Text.upTo_shift hstart]
  cases hmarks : b.ignored with
  | none => rfl
  | some marks => exact Text.endsWith_crlf (hb.stops marks hmarks) _

/-- Fuel for a search from a place on in either form of a text. -/
structure Fueled (code : Text) (pos fuel fuel' : Nat) : Prop where
  one : (after pos code).length < fuel
  two : (crlf (after pos code)).length < fuel'

theorem fueled_of_lt {fuel fuel' : Nat} (hpos : Boundary code pos) (h : code.length < fuel)
    (h' : (crlf code).length < fuel') : Fueled code pos fuel fuel' := by
  have hle := Text.length_after_le code pos
  have hle' := Text.length_after_le (crlf code) (shift code pos)
  rw [Text.after_shift hpos] at hle'
  exact ⟨by omega, by omega⟩

theorem Fueled.next {fuel fuel' pos' : Nat} (h : Fueled code pos (fuel + 1) (fuel' + 1))
    (hpos : Boundary code pos) (hpos' : Boundary code pos') (hlt : pos < pos') :
    Fueled code pos' fuel fuel' := by
  obtain ⟨hone, htwo⟩ := h
  have hless := Text.length_after_lt hpos hpos' hlt
  have hless' := Text.length_crlf_after_lt hpos hpos' hlt
  exact ⟨by omega, by omega⟩

theorem closingFrom_crlf (hb : b.Unbroken) {fuel fuel' : Nat} (hpos : Boundary code pos)
    (hfuel : Fueled code pos fuel fuel') :
    b.closingFrom (crlf code) fuel' (shift code pos) =
      (b.closingFrom code fuel pos).map (.crlf code) := by
  induction fuel generalizing fuel' pos with
  | zero => exact absurd hfuel.one (Nat.not_lt_zero _)
  | succ fuel ih =>
    obtain _ | fuel' := fuel'
    · exact absurd hfuel.two (Nat.not_lt_zero _)
    · rw [closingFrom, closingFrom, if_neg (Nat.not_lt_of_le hpos.le_size),
        if_neg (Nat.not_lt_of_le hpos.shift.le_size), Regex.findAt_crlf hb.closing hpos]
      cases hm : b.closing.findAt code pos with
      | none => rfl
      | some m =>
        have hstart := Regex.boundary_start_of_findAt hm
        have hstop := Regex.boundary_stop_of_findAt hm
        have hle := Regex.le_start_of_findAt hm hpos.le_size
        have hread := Regex.start_lt_stop_of_findAt hb.closing.loopsRead hb.reads hm
        have hfull : m.isEmpty = false := beq_false_of_ne (Nat.ne_of_lt hread)
        have hfull' : (m.crlf code).isEmpty = false :=
          beq_false_of_ne (Nat.ne_of_lt (Text.shift_lt hstart hstop hread))
        have hskips : b.skipsClosing (crlf code) (m.crlf code).start =
            b.skipsClosing code m.start := skipsClosing_crlf hb hstart
        simp only [Option.map_some, hskips, hfull, hfull', Bool.not_false, if_true]
        split
        · rfl
        · have hlt : pos < m.stop := Nat.lt_of_le_of_lt hle hread
          exact ih hstop (hfuel.next hpos hstop hlt)

theorem closing?_crlf (hb : b.Unbroken) (hpos : Boundary code pos) :
    b.closing? (crlf code) (shift code pos) = (b.closing? code pos).map (.crlf code) :=
  closingFrom_crlf hb hpos (fueled_of_lt hpos (by omega) (by omega))

/-- A mark that disqualifies a start is not empty and no line break, so that neither is what the
search goes on after. -/
theorem advance_crlf (hb : b.Unbroken) (hpos : Boundary code pos)
    (hskips : b.skipsOpening code pos = true) :
    Boundary code (advance code pos) ∧ pos < advance code pos ∧
      advance (crlf code) (shift code pos) = shift code (advance code pos) := by
  obtain ⟨marks, hmarks, hstarts⟩ := (Option.any_eq_true _ _).1 hskips
  obtain ⟨hne, hnewline, _⟩ := hb.starts marks hmarks
  obtain ⟨rest, hrest⟩ := Option.isSome_iff_exists.1 hstarts
  rw [Text.afterHead?_eq_some_iff] at hrest
  obtain ⟨d, mark, hmark⟩ := List.exists_cons_of_ne_nil hne
  have hd : d ≠ '\n' := by
    rintro rfl
    exact hnewline (hmark ▸ List.mem_cons_self)
  have hafter : after pos code = d :: (mark ++ rest) := by rw [hrest, hmark, List.cons_append]
  have hnext : advance code pos = pos + d.utf8Size := by simp only [advance, hafter]
  have hnext' : advance (crlf code) (shift code pos) = shift code pos + d.utf8Size := by
    simp only [advance, Text.after_shift hpos, hafter, Text.crlf_cons hd]
  obtain ⟨before, rest', hcode, rfl⟩ := hpos
  rw [hcode, Text.after_size_append] at hafter
  have hcode' : code = (before ++ [d]) ++ (mark ++ rest) := by
    rw [hcode, hafter, List.append_assoc]
    rfl
  have hsize : size (before ++ [d]) = advance code (size before) := by rw [hnext]; simp
  refine ⟨⟨_, _, hcode', hsize⟩, ?_, ?_⟩
  · have hpositive := Char.utf8Size_pos d
    omega
  · rw [hnext', ← hsize, hcode', Text.shift_size_append, List.append_assoc, Text.shift_size_append,
      Text.crlf_append, Text.crlf_cons hd]
    simp

theorem spanFrom_crlf (hb : b.Unbroken) {fuel fuel' : Nat} (hpos : Boundary code pos)
    (hfuel : Fueled code pos fuel fuel') :
    b.spanFrom (crlf code) fuel' (shift code pos) =
      (b.spanFrom code fuel pos).map (.crlf code) := by
  induction fuel generalizing fuel' pos with
  | zero => exact absurd hfuel.one (Nat.not_lt_zero _)
  | succ fuel ih =>
    obtain _ | fuel' := fuel'
    · exact absurd hfuel.two (Nat.not_lt_zero _)
    · rw [spanFrom, spanFrom, if_neg (Nat.not_lt_of_le hpos.le_size),
        if_neg (Nat.not_lt_of_le hpos.shift.le_size), Regex.findAt_crlf hb.opening hpos]
      cases hm : b.opening.findAt code pos with
      | none => rfl
      | some m =>
        have hend := Text.boundary_size code
        have hstop := Regex.boundary_stop_of_findAt hm
        have hle := Regex.le_start_of_findAt hm hpos.le_size
        have hle' := Regex.start_le_stop_of_findAt hm
        have hskips : b.skipsOpening (crlf code) (m.crlf code).stop = b.skipsOpening code m.stop :=
          skipsOpening_crlf hb hstop
        have hclosing : b.closing? (crlf code) (m.crlf code).stop =
            (b.closing? code m.stop).map (.crlf code) := closing?_crlf hb hstop
        simp only [Option.map_some, hskips, hclosing]
        cases hopening : b.skipsOpening code m.stop with
        | true =>
          obtain ⟨hnext, hlt, hadvance⟩ := advance_crlf hb hstop hopening
          have hmore : m.stop < size code := Nat.lt_of_lt_of_le hlt hnext.le_size
          have hmore' : (m.crlf code).stop < size (crlf code) := by
            rw [← Text.shift_size]
            exact Text.shift_lt hstop hend hmore
          have hadvance :
              advance (crlf code) (m.crlf code).stop = shift code (advance code m.stop) :=
            hadvance
          have hlt : pos < advance code m.stop := by omega
          rw [if_pos rfl, if_pos rfl, if_neg (Nat.not_le_of_lt hmore),
            if_neg (Nat.not_le_of_lt hmore'), hadvance]
          exact ih hnext (hfuel.next hpos hnext hlt)
        | false =>
          cases he : b.closing? code m.stop with
          | none => rfl
          | some e =>
            obtain ⟨hbody, _, hend, _⟩ := bounds_of_closing? he
            have hgroup := Regex.group?_crlf hm 1
            have hslice : Text.slice (m.crlf code).stop (e.crlf code).start (crlf code) =
                crlf (Text.slice m.stop e.start code) := Text.slice_shift hstop hend hbody
            simp only [Bool.false_eq_true, if_false, Option.map_some, hgroup, hslice]
            cases m.group? code 1 <;> simp [Span.crlf, Match.crlf]

theorem nextSpan_crlf (hb : b.Unbroken) (hpos : Boundary code pos) :
    b.nextSpan (crlf code) (shift code pos) = (b.nextSpan code pos).map (.crlf code) :=
  spanFrom_crlf hb hpos (fueled_of_lt hpos (by omega) (by omega))

theorem earliest_crlf {spans : List Span} (h : ∀ s ∈ spans, Boundary code s.start) :
    earliest (spans.map (Span.crlf code)) = (earliest spans).map (Span.crlf code) := by
  induction spans with
  | nil => rfl
  | cons s rest ih =>
    rw [List.forall_mem_cons] at h
    rw [List.map_cons, earliest, earliest, ih h.2]
    cases hrest : earliest rest with
    | none => rfl
    | some t =>
      have ht := h.2 t (mem_of_earliest hrest)
      simp only [Option.map_some, Span.crlf, Text.shift_lt_iff ht h.1]
      split <;> rfl

variable {kinds : List BlockComment}

theorem nextOf_crlf (hkinds : ∀ b ∈ kinds, b.Unbroken) (hpos : Boundary code pos) :
    nextOf kinds (crlf code) (shift code pos) = (nextOf kinds code pos).map (.crlf code) := by
  have hspans : (kinds.filterMap fun b => b.nextSpan (crlf code) (shift code pos)) =
      (kinds.filterMap fun b => b.nextSpan code pos).map (Span.crlf code) := by
    rw [List.map_filterMap]
    exact List.filterMap_congr fun b hb => nextSpan_crlf (hkinds b hb) hpos
  rw [nextOf, nextOf, hspans]
  refine earliest_crlf fun s hs => ?_
  obtain ⟨b, _, hspan⟩ := List.mem_filterMap.1 hs
  exact (bounds_of_nextSpan hspan).2.1

theorem spansFrom_crlf (hkinds : ∀ b ∈ kinds, b.Unbroken) {fuel fuel' : Nat}
    (hpos : Boundary code pos) (hfuel : Fueled code pos fuel fuel') :
    spansFrom kinds (crlf code) fuel' (shift code pos) =
      (spansFrom kinds code fuel pos).map (.crlf code) := by
  induction fuel generalizing fuel' pos with
  | zero => exact absurd hfuel.one (Nat.not_lt_zero _)
  | succ fuel ih =>
    obtain _ | fuel' := fuel'
    · exact absurd hfuel.two (Nat.not_lt_zero _)
    · have hmore := Text.shift_lt_iff hpos (Text.boundary_size code)
      rw [Text.shift_size] at hmore
      rw [spansFrom, spansFrom, nextOf_crlf hkinds hpos]
      simp only [hmore]
      split
      · cases hs : nextOf kinds code pos with
        | none => rfl
        | some s =>
          obtain ⟨b, hb, hspan⟩ := exists_of_nextOf hs
          obtain ⟨hle, hstart, _, hstop⟩ := bounds_of_nextSpan hspan
          have hread := start_lt_stop_of_nextSpan (hkinds b hb) hspan
          have hlt : pos < s.stop := Nat.lt_of_le_of_lt hle hread
          have hread' : (s.crlf code).start < (s.crlf code).stop :=
            Text.shift_lt hstart hstop hread
          simp only [Option.map_some, hread, hread', if_true, List.map_cons]
          exact congrArg _ (ih hstop (hfuel.next hpos hstop hlt))
      · rfl

theorem spans_crlf (hkinds : ∀ b ∈ kinds, b.Unbroken) (code : Text) :
    spans kinds (crlf code) = (spans kinds code).map (.crlf code) := by
  have hzero := Text.boundary_zero code
  have hspans : spansFrom kinds (crlf code) ((crlf code).length + 1) (shift code 0) =
      (spansFrom kinds code (code.length + 1) 0).map (.crlf code) :=
    spansFrom_crlf hkinds hzero (fueled_of_lt hzero (by omega) (by omega))
  rwa [Text.shift_zero] at hspans

theorem extract_crlf (hkinds : ∀ b ∈ kinds, b.Unbroken) (sections : List Section) :
    extract kinds (sections.map .crlf) = (extract kinds sections).map .crlf := by
  rw [extract, extract]
  split
  · rfl
  · exact Section.flatMap_splitBySpans_crlf (spans_crlf hkinds) (orderly_spans kinds) sections

end BlockComment

end Marginalia
