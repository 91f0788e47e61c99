import Marginalia.Link
import Marginalia.Proofs.Regex.Place
import Marginalia.Proofs.Regex.Reads
import Marginalia.Proofs.Text.Leading
import Mathlib.Tactic.MkIffOfInductiveProp

/-! # Patterns that read a name from the start of a text

A pattern bound to the start of a text is matched there or not at all. Where it ends with a group
that reads a name, the group captures all of the name that stands behind a text that the rest of the
pattern reads.
-/

namespace Marginalia

open Text (size)

/-- Behind a text that `reads` accepts there stands a name, as long as its characters go on. -/
def Behind (reads : Text → Prop) (s : CharSet) (t name : Text) : Prop :=
  ∃ before after, t = before ++ (name ++ after) ∧ reads before ∧ name ≠ [] ∧
    (∀ c ∈ name, s.contains c = true) ∧ after.head?.any s.contains = false

namespace Pattern

theorem leftmost_textStart_of_prev (q : Pattern) (pos : Nat) (c : Char) (t : Text) :
    (seq (look .textStart) q).leftmost pos (some c) t = none := by
  have hnone (t : Text) (pos : Nat) (c : Char) :
      (seq (look .textStart) q).matchHere ⟨pos, some c, t⟩ = none := rfl
  induction t generalizing pos c with
  | nil => exact hnone [] pos c
  | cons d t ih => rw [leftmost, hnone, Option.none_or, ih]

theorem leftmost_textStart (q : Pattern) (t : Text) :
    (seq (look .textStart) q).leftmost 0 none t = q.matchHere (.origin t) := by
  have hhere : (seq (look .textStart) q).matchHere (.origin t) = q.matchHere (.origin t) := by
    have hruns : (look .textStart).runs (.start (.origin t)) = [.start (.origin t)] := rfl
    rw [matchHere, runs, hruns, List.flatMap_singleton, matchHere]
  cases t with
  | nil => exact hhere
  | cons c t =>
    rw [leftmost, leftmost_textStart_of_prev, Option.or_none]
    exact hhere

/-- The parts of a pattern and a group for the name behind what they read. -/
def naming (ps : List Pattern) (s : CharSet) : Pattern :=
  sequence (ps ++ [group 1 (plus true (set s))])

variable {ps : List Pattern} {s : CharSet} {t name : Text}

/-- What a group read last is its text. -/
theorem group?_of_over {before x : Text} {u v : Thread} {captures : List Capture}
    (hbefore : Over before (.start (.origin t)) v) (hx : Over x v u)
    (hcaptures : u.captures = ⟨1, v.cursor.pos, u.cursor.pos⟩ :: captures) :
    (Match.ofThread 0 u).group? t 1 = some x := by
  have ht : t = before ++ (x ++ u.cursor.rest) := hx.rest ▸ hbefore.rest
  have hstart : v.cursor.pos = size before := hbefore.pos.trans (Nat.zero_add _)
  rw [hx.pos, hstart] at hcaptures
  simp only [Match.group?, Match.range?, Match.ofThread, hcaptures, List.find?_cons, ht]
  exact congrArg some (Text.slice_size_append before x u.cursor.rest)

/-- The preferred run of a greedy loop goes on as long as it can. -/
theorem stops_of_head?_runs_plus {u v : Thread}
    (h : ((plus true (set s)).runs v).head? = some u) :
    u.cursor.rest.head?.any s.contains = false := by
  obtain ⟨x, hx, hover⟩ := exists_of_mem_runs (List.mem_of_mem_head? h)
  obtain ⟨hne, hall⟩ := reads_plus_set.1 hx
  obtain ⟨c, x, rfl⟩ := List.exists_cons_of_ne_nil hne
  obtain ⟨run, after, hrest, hrun, hafter⟩ := Text.exists_leading s.contains v.cursor.rest
  have hne : run ≠ [] := by
    rintro rfl
    have hnext : c :: (x ++ u.cursor.rest) = after := hover.rest.symm.trans hrest
    rw [← hnext, List.head?_cons, Option.any_some, hall c List.mem_cons_self] at hafter
    cases hafter
  rw [head?_runs_plus hne hrun hafter hrest] at h
  obtain rfl := Option.some.inj h
  rwa [Thread.rest_skip, hrest, List.drop_left]

/-- The preferred run reads all of the name, and the group captures it. -/
theorem exists_of_matchHere {m : Match} (h : (naming ps s).matchHere (.origin t) = some m) :
    ∃ name, Behind (sequence ps).Reads s t name ∧ m.group? t 1 = some name := by
  obtain ⟨u, hu, rfl⟩ := Option.map_eq_some_iff.1 h
  rw [naming, runs_sequence_append, List.head?_flatMap] at hu
  obtain ⟨v, hv, hu⟩ := List.exists_of_findSome?_eq_some hu
  have hu : (((plus true (set s)).runs v.enter).map (Thread.leave 1)).head? = some u := hu
  obtain ⟨before, hbefore, hover⟩ := exists_of_mem_runs hv
  have hloop : groupless (plus true (set s)) = true := rfl
  obtain ⟨name, hname, hread, hcaptures⟩ :=
    exists_of_mem_runs_group hloop (List.mem_of_mem_head? hu)
  obtain ⟨hne, hword⟩ := reads_plus_set.1 hname
  have hstops : u.cursor.rest.head?.any s.contains = false := by
    rw [List.head?_map, Option.map_eq_some_iff] at hu
    obtain ⟨w, hw, rfl⟩ := hu
    rw [Thread.cursor_leave]
    exact stops_of_head?_runs_plus hw
  refine ⟨name, ⟨before, u.cursor.rest, hread.rest ▸ hover.rest, hbefore, hne, hword, hstops⟩, ?_⟩
  exact group?_of_over hover hread hcaptures

/-- A name behind a text that the parts read is found. -/
theorem isSome_matchHere (hlook : (sequence ps).lookless = true)
    (hloops : (sequence ps).loopsRead = true) (h : Behind (sequence ps).Reads s t name) :
    ((naming ps s).matchHere (.origin t)).isSome = true := by
  obtain ⟨before, after, rfl, hbefore, hne, hname, _⟩ := h
  obtain ⟨v, hv, hrest⟩ := exists_mem_runs hlook hloops hbefore
    (t := .start (.origin (before ++ (name ++ after)))) rfl
  have hread : (plus true (set s)).Reads name := reads_plus_set.2 ⟨hne, hname⟩
  have hread : (group 1 (plus true (set s))).Reads name := hread
  obtain ⟨u, hu, _⟩ := exists_mem_runs rfl rfl hread hrest
  have hmem : u ∈ (naming ps s).runs (.start (.origin (before ++ (name ++ after)))) := by
    rw [naming, runs_sequence_append]
    exact List.mem_flatMap.2 ⟨v, hv, hu⟩
  rw [matchHere, Option.isSome_map, List.isSome_head?]
  exact List.ne_nil_of_mem hmem

end Pattern

theorem Regex.find_eq_matchHere {re : Regex} {q : Pattern}
    (h : re.pattern = .seq (.look .textStart) q) (hloops : q.loopsRead = true) (t : Text) :
    re.find t = q.matchHere (.origin t) := by
  have hstart : Cursor.ofOffset t 0 = .origin t := by cases t <;> rfl
  have hall : re.pattern.loopsRead = true := by
    rw [h]
    exact Bool.and_eq_true_iff.2 ⟨rfl, hloops⟩
  rw [Regex.find, Regex.findAt, hstart, Regex.findFrom_eq_leftmost hall, h]
  exact Pattern.leftmost_textStart q t

namespace LinkRule

open Pattern (naming sequence)

/-- The anchor is what a group called `name` captures. -/
@[mk_iff]
structure Naming (ps : List Pattern) (s : CharSet) (rule : LinkRule) : Prop where
  pattern_eq : rule.pattern.pattern = .seq (.look .textStart) (naming ps s)
  names_eq : rule.pattern.names = [(("name" : Text), 1)]
  template_eq : rule.template = "$\x7bname\x7d"
  lookless : (sequence ps).lookless = true
  loopsRead : ∀ p ∈ ps, p.loopsRead = true

instance (ps : List Pattern) (s : CharSet) (rule : LinkRule) : Decidable (Naming ps s rule) :=
  decidable_of_iff' _ (naming_iff ps s rule)

variable {rule : LinkRule} {ps : List Pattern} {s : CharSet}

theorem Naming.expand_eq (h : rule.Naming ps s) (t : Text) (m : Match) :
    rule.pattern.expand t m rule.template = (m.group? t 1).getD [] := by
  have hname : rule.pattern.resolve t m "name" = (m.group? t 1).getD [] := by
    rw [Regex.resolve, h.names_eq]
    rfl
  rw [h.template_eq, ← hname]
  exact List.append_nil _

/-- Where there is but one name that the rule may read, the anchor is this name. -/
theorem Naming.anchor?_eq_some_iff (h : rule.Naming ps s) {t : Text}
    (hunique : ∀ a b, Behind (sequence ps).Reads s t a → Behind (sequence ps).Reads s t b → a = b)
    (name : Text) : rule.anchor? t = some name ↔ Behind (sequence ps).Reads s t name := by
  have hloops : (naming ps s).loopsRead = true := by
    refine Pattern.loopsRead_sequence fun p hp => ?_
    rcases List.mem_append.1 hp with hp | hp
    · exact h.loopsRead p hp
    · rw [List.mem_singleton.1 hp]
      rfl
  have hfind := Regex.find_eq_matchHere h.pattern_eq hloops t
  have hanchor {m : Match} (hm : rule.pattern.find t = some m) :
      ∃ found, Behind (sequence ps).Reads s t found ∧ rule.anchor? t = some found := by
    obtain ⟨found, hfound, hgroup⟩ := Pattern.exists_of_matchHere (hfind.symm.trans hm)
    obtain ⟨_, _, _, _, hne, _, _⟩ := id hfound
    refine ⟨found, hfound, ?_⟩
    simp only [anchor?, hm, Option.bind_eq_bind, Option.bind_some, h.expand_eq, hgroup,
      Option.getD_some, List.isEmpty_iff, if_neg hne]
  constructor
  · intro hname
    cases hm : rule.pattern.find t with
    | none => simp [anchor?, hm] at hname
    | some m =>
      obtain ⟨found, hfound, hsome⟩ := hanchor hm
      rwa [← Option.some.inj (hsome.symm.trans hname)]
  · intro hname
    have hsome := Pattern.isSome_matchHere h.lookless (Pattern.loopsRead_sequence h.loopsRead) hname
    rw [← hfind, Option.isSome_iff_exists] at hsome
    obtain ⟨m, hm⟩ := hsome
    obtain ⟨found, hfound, hsome⟩ := hanchor hm
    rw [hsome, hunique found name hfound hname]

end LinkRule

end Marginalia
