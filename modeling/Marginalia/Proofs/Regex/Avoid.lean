import Marginalia.Proofs.Regex.Place

/-! # Characters that a pattern does not read

A pattern none of whose sets has a character matches only texts without it, and so does a group for
what it captures.
-/

namespace Marginalia

open Pattern (Reaches)

/-- A cursor moved from `c` to `e` over characters other than `d`. -/
def Cursor.Skips (d : Char) (c e : Cursor) : Prop :=
  ∃ taken : Text, c.rest = taken ++ e.rest ∧ e.pos = c.pos + Text.size taken ∧ d ∉ taken

namespace Cursor

variable {d : Char} {c e f : Cursor}

theorem Skips.refl (d : Char) (c : Cursor) : c.Skips d c := ⟨[], rfl, rfl, List.not_mem_nil⟩

theorem Skips.trans (h : c.Skips d e) (h' : e.Skips d f) : c.Skips d f := by
  obtain ⟨a, ha, hpos, hd⟩ := h
  obtain ⟨b, hb, hpos', hd'⟩ := h'
  refine ⟨a ++ b, by rw [ha, hb, List.append_assoc], ?_, ?_⟩
  · rw [hpos', hpos, Text.size_append, Nat.add_assoc]
  · rw [List.mem_append]
    rintro (hmem | hmem)
    · exact hd hmem
    · exact hd' hmem

theorem skips_next {s : CharSet} (hs : s.contains d = false)
    (hread : c.rest.head?.any s.contains = true) : c.Skips d c.next := by
  cases hrest : c.rest with
  | nil => simp [hrest] at hread
  | cons x rest =>
    refine ⟨[x], ?_, ?_, ?_⟩
    · simp [next, hrest]
    · simp [next, hrest]
    · rw [List.mem_singleton]
      rintro rfl
      simp [hrest, hs] at hread

theorem Skips.not_mem_slice {t : Text} (hc : Reaches (origin t) c) (h : c.Skips d e) :
    d ∉ Text.slice c.pos e.pos t := by
  obtain ⟨before, htext, hpos, _⟩ := hc
  obtain ⟨taken, hrest, hstop, hd⟩ := h
  have htext : t = before ++ c.rest := htext
  have hpos : c.pos = Text.size before := by simpa [origin] using hpos
  rwa [hstop, hpos, htext, hrest, Text.slice_size_append]

end Cursor

namespace Pattern

/-- The ways through a pattern, in no order. -/
inductive Leads : Pattern → Thread → Thread → Prop
  | empty {t} : Leads empty t t
  | set {s t} (h : t.cursor.rest.head?.any s.contains = true) : Leads (set s) t t.advance
  | look {l t} (h : l.holds t.cursor = true) : Leads (look l) t t
  | seq {p q t u v} (h : Leads p t u) (h' : Leads q u v) : Leads (seq p q) t v
  | left {p q t u} (h : Leads p t u) : Leads (alt p q) t u
  | right {p q t u} (h : Leads q t u) : Leads (alt p q) t u
  | group {n p t u} (h : Leads p t.enter u) : Leads (group n p) t (u.leave n)
  | leave {greedy p t} : Leads (star greedy p) t t
  | round {greedy p t u v} (h : Leads p t u) (h' : Leads (star greedy p) u v) :
    Leads (star greedy p) t v
  | plus {greedy p t u v} (h : Leads p t u) (h' : Leads (star greedy p) u v) :
    Leads (plus greedy p) t v

theorem leads_of_mem_iterate {greedy : Bool} {p : Pattern}
    (hstep : ∀ t, ∀ u ∈ p.runs t, Leads p t u) {fuel : Nat} {t u : Thread}
    (hu : u ∈ iterate greedy p.runs fuel t) : Leads (star greedy p) t u := by
  induction fuel generalizing t with
  | zero =>
    rw [List.mem_singleton.1 hu]
    exact .leave
  | succ fuel ih =>
    have hmore (h : u ∈ (p.runs t).flatMap (iterate greedy p.runs fuel)) :
        Leads (star greedy p) t u := by
      obtain ⟨v, hv, hu⟩ := List.mem_flatMap.1 h
      exact .round (hstep t v hv) (ih hu)
    cases greedy with
    | false =>
      rcases List.mem_cons.1 hu with rfl | hu
      · exact .leave
      · exact hmore hu
    | true =>
      rcases List.mem_append.1 hu with hu | hu
      · exact hmore hu
      · rw [List.mem_singleton.1 hu]
        exact .leave

theorem leads_of_mem_runs {p : Pattern} {t u : Thread} (hu : u ∈ p.runs t) : Leads p t u := by
  induction p generalizing t u with
  | empty =>
    rw [List.mem_singleton.1 hu]
    exact .empty
  | set s =>
    rw [runs] at hu
    split at hu
    · rename_i hread
      rw [List.mem_singleton.1 hu]
      exact .set hread
    · cases hu
  | look l =>
    rw [runs] at hu
    split at hu
    · rename_i hlook
      rw [List.mem_singleton.1 hu]
      exact .look hlook
    · cases hu
  | seq p q ihp ihq =>
    obtain ⟨v, hv, hu⟩ := List.mem_flatMap.1 hu
    exact .seq (ihp hv) (ihq hu)
  | alt p q ihp ihq =>
    rcases List.mem_append.1 hu with hu | hu
    · exact .left (ihp hu)
    · exact .right (ihq hu)
  | group n p ih =>
    obtain ⟨v, hv, rfl⟩ := List.mem_map.1 hu
    exact .group (ih hv)
  | star greedy p ih => exact leads_of_mem_iterate (fun _ _ => ih) hu
  | plus greedy p ih =>
    obtain ⟨v, hv, hu⟩ := List.mem_flatMap.1 hu
    exact .plus (ih hv) (leads_of_mem_iterate (fun _ _ => ih) hu)

def avoids (d : Char) : Pattern → Bool
  | empty => true
  | set s => !s.contains d
  | look _ => true
  | seq p q => p.avoids d && q.avoids d
  | alt p q => p.avoids d && q.avoids d
  | group _ p => p.avoids d
  | star _ p => p.avoids d
  | plus _ p => p.avoids d

/-- Whether none of the groups reads `d`. -/
def groupsAvoid (d : Char) : Pattern → Bool
  | empty => true
  | set _ => true
  | look _ => true
  | seq p q => p.groupsAvoid d && q.groupsAvoid d
  | alt p q => p.groupsAvoid d && q.groupsAvoid d
  | group _ p => p.avoids d && p.groupsAvoid d
  | star _ p => p.groupsAvoid d
  | plus _ p => p.groupsAvoid d

variable {d : Char} {p : Pattern} {t u : Thread}

theorem Leads.skips (h : Leads p t u) (hp : p.avoids d = true) :
    t.cursor.Skips d u.cursor := by
  induction h with
  | empty => exact .refl d _
  | set hread => exact Cursor.skips_next (by simpa [avoids] using hp) hread
  | look _ => exact .refl d _
  | seq _ _ ihp ihq =>
    obtain ⟨hp, hq⟩ := Bool.and_eq_true_iff.1 hp
    exact (ihp hp).trans (ihq hq)
  | left _ ih => exact ih (Bool.and_eq_true_iff.1 hp).1
  | right _ ih => exact ih (Bool.and_eq_true_iff.1 hp).2
  | group _ ih =>
    rw [Thread.cursor_leave]
    exact ih hp
  | leave => exact .refl d _
  | round _ _ ihp ih => exact (ihp hp).trans (ih hp)
  | plus _ _ ihp ih => exact (ihp hp).trans (ih hp)

theorem groupsAvoid_of_avoids (hp : p.avoids d = true) : p.groupsAvoid d = true := by
  induction p with
  | empty => rfl
  | set s => rfl
  | look l => rfl
  | seq p q ihp ihq =>
    obtain ⟨hp, hq⟩ := Bool.and_eq_true_iff.1 hp
    exact Bool.and_eq_true_iff.2 ⟨ihp hp, ihq hq⟩
  | alt p q ihp ihq =>
    obtain ⟨hp, hq⟩ := Bool.and_eq_true_iff.1 hp
    exact Bool.and_eq_true_iff.2 ⟨ihp hp, ihq hq⟩
  | group n p ih => exact Bool.and_eq_true_iff.2 ⟨hp, ih hp⟩
  | star greedy p ih => exact ih hp
  | plus greedy p ih => exact ih hp

/-- A group is left as often as it is entered. -/
theorem Leads.entered (h : Leads p t u) : u.entered = t.entered := by
  induction h with
  | empty => rfl
  | set _ => rfl
  | look _ => rfl
  | seq _ _ ihp ihq => exact ihq.trans ihp
  | left _ ih => exact ih
  | right _ ih => exact ih
  | @group n p t u _ ih =>
    have hentered : u.entered = t.cursor.pos :: t.entered := ih
    simp only [Thread.leave, hentered]
  | leave => rfl
  | round _ _ ihp ih => exact ih.trans ihp
  | plus _ _ ihp ih => exact ih.trans ihp

/-- A thread inside a text none of whose captures holds `d`. -/
structure Lacks (text : Text) (d : Char) (t : Thread) : Prop where
  reaches : Reaches (.origin text) t.cursor
  captures : ∀ c ∈ t.captures, d ∉ Text.slice c.start c.stop text

theorem Leads.lacks {text : Text} (h : Leads p t u) (hp : p.groupsAvoid d = true)
    (ht : Lacks text d t) : Lacks text d u := by
  induction h with
  | empty => exact ht
  | set _ => exact ⟨ht.reaches.trans (.next _), ht.captures⟩
  | look _ => exact ht
  | seq _ _ ihp ihq =>
    obtain ⟨hp, hq⟩ := Bool.and_eq_true_iff.1 hp
    exact ihq hq (ihp hp ht)
  | left _ ih => exact ih (Bool.and_eq_true_iff.1 hp).1 ht
  | right _ ih => exact ih (Bool.and_eq_true_iff.1 hp).2 ht
  | @group n p t u hleads ih =>
    obtain ⟨hp, hinner⟩ := Bool.and_eq_true_iff.1 hp
    have hentered : u.entered = t.cursor.pos :: t.entered := hleads.entered
    have henter : Lacks text d t.enter := ⟨ht.reaches, ht.captures⟩
    have hu := ih hinner henter
    simp only [Thread.leave, hentered]
    refine ⟨hu.reaches, List.forall_mem_cons.2 ⟨?_, hu.captures⟩⟩
    exact (hleads.skips hp).not_mem_slice ht.reaches
  | leave => exact ht
  | round _ _ ihp ih => exact ih hp (ihp hp ht)
  | plus _ _ ihp ih => exact ih hp (ihp hp ht)

end Pattern

namespace Regex

variable {re : Regex} {d : Char} {t : Text} {offset : Nat} {m : Match}

theorem not_mem_text (hloops : re.pattern.loopsRead = true) (hre : re.pattern.avoids d = true)
    (h : re.findAt t offset = some m) : d ∉ m.text t := by
  rw [findAt, findFrom_eq_leftmost hloops] at h
  obtain ⟨c, u, hc, hu, rfl⟩ := Pattern.exists_of_leftmost h
  have hstart := (Cursor.reaches_ofOffset t offset).trans hc
  exact ((Pattern.leads_of_mem_runs hu).skips hre).not_mem_slice hstart

theorem not_mem_group (hloops : re.pattern.loopsRead = true)
    (hre : re.pattern.groupsAvoid d = true) (h : re.findAt t offset = some m) {n : Nat} (hn : n ≠ 0)
    {g : Text} (hg : m.group? t n = some g) : d ∉ g := by
  rw [findAt, findFrom_eq_leftmost hloops] at h
  obtain ⟨c, u, hc, hu, rfl⟩ := Pattern.exists_of_leftmost h
  have hstart : Pattern.Lacks t d (.start c) :=
    ⟨(Cursor.reaches_ofOffset t offset).trans hc, fun _ hmem => absurd hmem List.not_mem_nil⟩
  obtain ⟨r, hr, rfl⟩ := Option.map_eq_some_iff.1 hg
  rw [Match.range?, if_neg hn] at hr
  obtain ⟨capture, hcapture, rfl⟩ := Option.map_eq_some_iff.1 hr
  have hlacks := (Pattern.leads_of_mem_runs hu).lacks hre hstart
  exact hlacks.captures capture (List.mem_of_find?_eq_some hcapture)

end Regex

end Marginalia
