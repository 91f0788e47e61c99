import Marginalia.Proofs.Comment.Block
import Marginalia.Proofs.Regex.Captures

/-! # Guarded searches for paired comments

A guarded search may only look at a text between boundaries, and it has a number of rounds for each
of its loops. Whatever the delimiters and marks are, the search for paired comments passes its
guards and has rounds to spare (`guarded_and_ascending`).
-/

namespace Marginalia

open Text (Boundary size upTo after)

/-- Why a guarded search breaks off. -/
inductive Fault where
  /-- It looks at a text outside the text or from inside a character. -/
  | outside
  /-- A loop goes on after its last round. -/
  | endless
  deriving DecidableEq

namespace Guarded

/-- The part of a text between two boundaries. -/
def slice (start stop : Nat) (t : Text) : Except Fault Text :=
  if start ≤ stop ∧ size (upTo start t) = start ∧ size (upTo stop t) = stop then
    .ok (Text.slice start stop t)
  else .error .outside

/-- The leftmost match from an offset on, which may not lie behind the text. -/
def find (re : Regex) (t : Text) (offset : Nat) : Except Fault (Option Match) :=
  if offset ≤ size t then .ok (re.findAt t offset) else .error .outside

def group (m : Match) (t : Text) (n : Nat) : Except Fault Text :=
  match m.range? n with
  | none => .ok []
  | some r => slice r.1 r.2 t

def advance (code : Text) (pos : Nat) : Except Fault Nat := do
  match ← slice pos (size code) code with
  | [] => return pos + 1
  | c :: _ => return pos + c.utf8Size

variable (b : BlockComment) (code : Text) (rounds : Nat)

def skipsOpening (stop : Nat) : Except Fault Bool :=
  match b.ignored with
  | none => return false
  | some marks => return Text.startsWith marks.1 (← slice stop (size code) code)

def skipsClosing (start : Nat) : Except Fault Bool :=
  match b.ignored with
  | none => return false
  | some marks => return Text.endsWith marks.2 (← slice 0 start code)

def closingFrom : Nat → Nat → Except Fault (Option Match)
  | 0, _ => .error .endless
  | left + 1, pos =>
    if size code < pos then return none
    else do
      match ← find b.closing code pos with
      | none => return none
      | some m =>
        if !(← skipsClosing b code m.start) then return some m
        else if !m.isEmpty then closingFrom left m.stop
        else if m.stop < size code then closingFrom left (← advance code m.stop)
        else return none

def spanFrom : Nat → Nat → Except Fault (Option Span)
  | 0, _ => .error .endless
  | left + 1, pos =>
    if size code < pos then return none
    else do
      match ← find b.opening code pos with
      | none => return none
      | some m =>
        let indentation ← group m code 1
        if ← skipsOpening b code m.stop then
          if size code ≤ m.stop then return none
          else spanFrom left (← advance code m.stop)
        else
          match ← closingFrom b code rounds m.stop with
          | none => return none
          | some e =>
            return some ⟨m.start, e.stop, indentation ++ (← slice m.stop e.start code)⟩

/-- The place after a span where the search goes on. -/
def next (s : Span) : Except Fault Nat :=
  if s.start < s.stop then .ok s.stop else advance code s.start

def spansFrom (kinds : List BlockComment) : Nat → Nat → Except Fault (List Span)
  | 0, _ => .error .endless
  | left + 1, pos =>
    if pos < size code then do
      let found ← kinds.mapM fun b => spanFrom b code rounds rounds pos
      match BlockComment.earliest found.reduceOption with
      | none => return []
      | some s =>
        return s :: (← spansFrom kinds left (← next code s))
    else return []

/-! ## The guards never stop a search -/

theorem bind_ok {α β : Type} (a : α) (f : α → Except Fault β) :
    (Except.ok a >>= f) = f a := rfl

section Reads

variable {b : BlockComment} {code : Text} {pos start stop : Nat}

theorem slice_eq (hstart : Boundary code start) (hstop : Boundary code stop) (hle : start ≤ stop) :
    slice start stop code = .ok (Text.slice start stop code) :=
  if_pos ⟨hle, Text.boundary_iff.1 hstart, Text.boundary_iff.1 hstop⟩

theorem find_eq {re : Regex} (h : pos ≤ size code) : find re code pos = .ok (re.findAt code pos) :=
  if_pos h

theorem group_eq {re : Regex} {m : Match} (h : re.findAt code pos = some m) (n : Nat) :
    group m code n = .ok ((m.group? code n).getD []) := by
  rw [group, Match.group?]
  cases hr : m.range? n with
  | none => rfl
  | some r =>
    obtain ⟨_, hle, _, hstart, hstop⟩ := Regex.bounds_of_range? h hr
    exact slice_eq hstart hstop hle

theorem advance_eq (h : Boundary code pos) :
    advance code pos = .ok (BlockComment.advance code pos) := by
  rw [advance, slice_eq h (Text.boundary_size code) h.le_size, Text.slice_size h,
    BlockComment.advance]
  cases after pos code <;> rfl

theorem skipsOpening_eq (h : Boundary code stop) :
    skipsOpening b code stop = .ok (b.skipsOpening code stop) := by
  rw [skipsOpening, BlockComment.skipsOpening]
  cases b.ignored with
  | none => rfl
  | some marks =>
    simp only [slice_eq h (Text.boundary_size code) h.le_size, Text.slice_size h]
    rfl

theorem skipsClosing_eq (h : Boundary code start) :
    skipsClosing b code start = .ok (b.skipsClosing code start) := by
  rw [skipsClosing, BlockComment.skipsClosing]
  cases b.ignored with
  | none => rfl
  | some marks =>
    have hslice : slice 0 start code = .ok (upTo start code) := by
      rw [slice_eq (Text.boundary_zero code) h (Nat.zero_le start), Text.slice, after, Text.cut_zero,
        Nat.sub_zero]
    simp only [hslice]
    rfl

end Reads

section Searches

variable {b : BlockComment} {code : Text} {pos : Nat}

/-- What is left of the text limits the rounds of a search that goes on after the start of a match. -/
theorem length_after_lt_of_findAt {re : Regex} {m : Match} {next : Nat}
    (h : re.findAt code pos = some m) (hpos : pos ≤ size code) (hnext : Boundary code next)
    (hlt : m.start < next) : (after next code).length < (after pos code).length :=
  Nat.lt_of_lt_of_le (Text.length_after_lt (Regex.boundary_start_of_findAt h) hnext hlt)
    (Text.length_after_anti code (Regex.le_start_of_findAt h hpos))

theorem closingFrom_eq {left fuel : Nat} (hleft : (after pos code).length < left)
    (hfuel : (after pos code).length < fuel) :
    closingFrom b code left pos = .ok (b.closingFrom code fuel pos) := by
  induction left generalizing fuel pos with
  | zero => exact absurd hleft (Nat.not_lt_zero _)
  | succ left ih =>
    obtain _ | fuel := fuel
    · exact absurd hfuel (Nat.not_lt_zero _)
    · rw [closingFrom, BlockComment.closingFrom]
      by_cases hpos : size code < pos
      · rw [if_pos hpos, if_pos hpos]
        rfl
      · have hpos' := Nat.le_of_not_lt hpos
        rw [if_neg hpos, if_neg hpos, find_eq hpos']
        cases hm : b.closing.findAt code pos with
        | none => rfl
        | some m =>
          have hstop := Regex.boundary_stop_of_findAt hm
          have hle := Regex.start_le_stop_of_findAt hm
          have hgo {next : Nat} (hnext : Boundary code next) (hlt : m.start < next) :
              closingFrom b code left next = .ok (b.closingFrom code fuel next) := by
            have hless := length_after_lt_of_findAt hm hpos' hnext hlt
            exact ih (by omega) (by omega)
          simp only [bind_ok, skipsClosing_eq (Regex.boundary_start_of_findAt hm)]
          split
          · rfl
          · split
            · rename_i hread
              refine hgo hstop (Nat.lt_of_le_of_ne hle ?_)
              simpa [Match.isEmpty] using hread
            · split
              · rename_i hmore
                obtain ⟨hnext, hlt⟩ := BlockComment.advance_of_lt hstop hmore
                rw [advance_eq hstop, bind_ok]
                exact hgo hnext (by omega)
              · rfl

theorem closing?_eq {left : Nat} (hleft : code.length < left) :
    closingFrom b code left pos = .ok (b.closing? code pos) := by
  have hlength := Text.length_after_le code pos
  exact closingFrom_eq (by omega) (by omega)

theorem spanFrom_eq {rounds left fuel : Nat} (hrounds : code.length < rounds)
    (hleft : (after pos code).length < left) (hfuel : (after pos code).length < fuel) :
    spanFrom b code rounds left pos = .ok (b.spanFrom code fuel pos) := by
  induction left generalizing fuel pos with
  | zero => exact absurd hleft (Nat.not_lt_zero _)
  | succ left ih =>
    obtain _ | fuel := fuel
    · exact absurd hfuel (Nat.not_lt_zero _)
    · rw [spanFrom, BlockComment.spanFrom]
      by_cases hpos : size code < pos
      · rw [if_pos hpos, if_pos hpos]
        rfl
      · have hpos' := Nat.le_of_not_lt hpos
        rw [if_neg hpos, if_neg hpos, find_eq hpos']
        cases hm : b.opening.findAt code pos with
        | none => rfl
        | some m =>
          have hstop := Regex.boundary_stop_of_findAt hm
          have hle := Regex.start_le_stop_of_findAt hm
          simp only [bind_ok, group_eq hm, skipsOpening_eq hstop]
          split
          · split
            · rfl
            · rename_i hmore
              obtain ⟨hnext, hlt⟩ :=
                BlockComment.advance_of_lt hstop (Nat.lt_of_not_le hmore)
              have hless := length_after_lt_of_findAt hm hpos' hnext (by omega)
              rw [advance_eq hstop, bind_ok]
              exact ih (by omega) (by omega)
          · rw [closing?_eq hrounds, bind_ok]
            cases he : b.closing? code m.stop with
            | none => rfl
            | some e =>
              obtain ⟨hbody, _, hend, _⟩ := BlockComment.bounds_of_closing? he
              simp only [slice_eq hstop hend hbody]
              rfl

theorem nextSpan_eq {rounds : Nat} (hrounds : code.length < rounds) :
    spanFrom b code rounds rounds pos = .ok (b.nextSpan code pos) := by
  have hlength := Text.length_after_le code pos
  exact spanFrom_eq hrounds (by omega) (by omega)

theorem reduceOption_nextSpan (kinds : List BlockComment) (code : Text) (pos : Nat) :
    BlockComment.earliest (kinds.map fun b => b.nextSpan code pos).reduceOption =
      BlockComment.nextOf kinds code pos := by
  change BlockComment.earliest ((kinds.map fun b => b.nextSpan code pos).filterMap id) = _
  rw [List.filterMap_map]
  rfl

theorem next_eq {s : Span} (h : b.nextSpan code pos = some s) :
    next code s =
      .ok (if s.start < s.stop then s.stop else BlockComment.advance code s.start) := by
  rw [next]
  split
  · rfl
  · exact advance_eq (BlockComment.bounds_of_nextSpan h).2.1

/-- The search for all comments goes on after the start of the last one. Only behind the text the
place where it goes on may be no boundary. -/
theorem lt_next {s : Span} {next : Nat} (h : b.nextSpan code pos = some s)
    (hpos : Boundary code pos) (hmore : pos < size code)
    (hnext : next = if s.start < s.stop then s.stop else BlockComment.advance code s.start) :
    s.start < next ∧ (next < size code → Boundary code next) ∧
      (after next code).length < (after pos code).length := by
  obtain ⟨hle, hstart, hstop, hboundary⟩ := BlockComment.bounds_of_nextSpan h
  have hless (hlt : s.start < next) (hnext : Boundary code next) :
      (after next code).length < (after pos code).length :=
    Nat.lt_of_lt_of_le (Text.length_after_lt hstart hnext hlt) (Text.length_after_anti code hle)
  split at hnext
  · subst hnext
    rename_i hlt
    exact ⟨hlt, fun _ => hboundary, hless hlt hboundary⟩
  · rcases Nat.lt_or_ge s.start (size code) with hinside | hend
    · obtain ⟨hadvance, hlt⟩ := BlockComment.advance_of_lt hstart hinside
      rw [← hnext] at hadvance hlt
      exact ⟨hlt, fun _ => hadvance, hless hlt hadvance⟩
    · have hlt : s.start < next := by
        rw [hnext, BlockComment.advance_of_ge hend]
        exact Nat.lt_succ_self _
      refine ⟨hlt, fun hinside => absurd hinside (by omega), ?_⟩
      exact Nat.lt_of_le_of_lt (Text.length_after_anti code (by omega))
        (Text.length_after_lt hpos (Text.boundary_size code) hmore)

theorem spansFrom_eq {kinds : List BlockComment} {rounds left fuel : Nat}
    (hrounds : code.length < rounds) (hpos : pos < size code → Boundary code pos)
    (hleft : (after pos code).length < left) (hfuel : (after pos code).length < fuel) :
    spansFrom code rounds kinds left pos = .ok (BlockComment.spansFrom kinds code fuel pos) := by
  induction left generalizing fuel pos with
  | zero => exact absurd hleft (Nat.not_lt_zero _)
  | succ left ih =>
    obtain _ | fuel := fuel
    · exact absurd hfuel (Nat.not_lt_zero _)
    · rw [spansFrom, BlockComment.spansFrom]
      by_cases hmore : pos < size code
      · have hfound : (kinds.mapM fun b => spanFrom b code rounds rounds pos) =
            .ok (kinds.map fun b => b.nextSpan code pos) := by
          simp only [nextSpan_eq hrounds]
          exact List.mapM_pure
        rw [if_pos hmore, if_pos hmore, hfound, bind_ok, reduceOption_nextSpan]
        cases hs : BlockComment.nextOf kinds code pos with
        | none => rfl
        | some s =>
          obtain ⟨b, _, hspan⟩ := BlockComment.exists_of_nextOf hs
          obtain ⟨_, hnext, hless⟩ := lt_next hspan (hpos hmore) hmore rfl
          have hgo {next : Nat} (hnext : next < size code → Boundary code next)
              (hless : (after next code).length < (after pos code).length) :
              spansFrom code rounds kinds left next =
                .ok (BlockComment.spansFrom kinds code fuel next) := ih hnext (by omega) (by omega)
          simp only [next_eq hspan, bind_ok, hgo hnext hless]
          rfl
      · rw [if_neg hmore, if_neg hmore]
        rfl

end Searches

end Guarded

namespace BlockComment

/-- Spans that go up in the code, one behind the other. -/
structure Ascending (code : Text) (spans : List Span) : Prop where
  starts : spans.Pairwise fun s t => s.start < t.start
  start_le : ∀ s ∈ spans, s.start ≤ s.stop
  apart : spans.Pairwise fun s t => s.stop ≤ t.start
  stop_le : ∀ s ∈ spans, s.stop ≤ size code

theorem Ascending.cons {code : Text} {s : Span} {rest : List Span} {next : Nat}
    (hrest : Ascending code rest) (hfrom : ∀ t ∈ rest, next ≤ t.start) (hlt : s.start < next)
    (hle : s.start ≤ s.stop) (hnext : s.stop ≤ next) (hstop : s.stop ≤ size code) :
    Ascending code (s :: rest) where
  starts := List.pairwise_cons.2 ⟨fun t ht => Nat.lt_of_lt_of_le hlt (hfrom t ht), hrest.starts⟩
  start_le := List.forall_mem_cons.2 ⟨hle, hrest.start_le⟩
  apart := List.pairwise_cons.2 ⟨fun t ht => Nat.le_trans hnext (hfrom t ht), hrest.apart⟩
  stop_le := List.forall_mem_cons.2 ⟨hstop, hrest.stop_le⟩

theorem ascending_spansFrom {kinds : List BlockComment} {code : Text} {fuel pos : Nat}
    (hpos : pos < size code → Boundary code pos) :
    Ascending code (spansFrom kinds code fuel pos) ∧
      ∀ s ∈ spansFrom kinds code fuel pos, pos ≤ s.start := by
  have hnone (pos : Nat) : Ascending code [] ∧ ∀ s ∈ ([] : List Span), pos ≤ s.start :=
    ⟨⟨.nil, nofun, .nil, nofun⟩, nofun⟩
  induction fuel generalizing pos with
  | zero => exact hnone pos
  | succ fuel ih =>
    rw [spansFrom]
    split
    · rename_i hmore
      split
      · exact hnone pos
      · rename_i s hs
        obtain ⟨b, _, hspan⟩ := exists_of_nextOf hs
        obtain ⟨hle, _, hstop, hboundary⟩ := bounds_of_nextSpan hspan
        obtain ⟨hlt, hnext, _⟩ := Guarded.lt_next hspan (hpos hmore) hmore rfl
        obtain ⟨hrest, hfrom⟩ := ih hnext
        have hend : s.stop ≤ if s.start < s.stop then s.stop else advance code s.start := by
          split
          · exact Nat.le_refl _
          · have hadvance := le_advance code s.start
            omega
        refine ⟨hrest.cons hfrom hlt hstop hend hboundary.le_size,
          List.forall_mem_cons.2 ⟨hle, fun t ht => ?_⟩⟩
        have hstart := hfrom t ht
        omega
    · exact hnone pos

/-- The searches for an end delimiter, for one comment and for all comments pass their guards at
every place of every code, with one round for each character and one more at most. The comments that
they find go up in the code. -/
theorem guarded_and_ascending (kinds : List BlockComment) (code : Text) (more : Nat) :
    let rounds := code.length + 1 + more
    (∀ b pos, Guarded.closingFrom b code rounds pos = .ok (b.closing? code pos)) ∧
      (∀ b pos, Guarded.spanFrom b code rounds rounds pos = .ok (b.nextSpan code pos)) ∧
      Guarded.spansFrom code rounds kinds rounds 0 = .ok (spans kinds code) ∧
      Ascending code (spans kinds code) := by
  intro rounds
  have hrounds : code.length < rounds := by omega
  have hzero : (0 < size code → Boundary code 0) := fun _ => Text.boundary_zero code
  have hlength := Text.length_after_le code 0
  refine ⟨fun b pos => Guarded.closing?_eq hrounds, fun b pos => Guarded.nextSpan_eq hrounds, ?_,
    (ascending_spansFrom hzero).1⟩
  exact Guarded.spansFrom_eq hrounds hzero (by omega) (by omega)

end BlockComment

end Marginalia
