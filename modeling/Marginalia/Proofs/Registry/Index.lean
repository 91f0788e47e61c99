import Mathlib.Data.List.Induction
import Marginalia.Proofs.Except
import Marginalia.Proofs.Registry.InPlace
import Marginalia.Proofs.Table
import Marginalia.Proofs.Text.Lower

/-! # The index of a registry

Whatever calls a registry has seen, each language stands under its own name and each extension that
a language lists leads to it (`index_after`). The converse fails only where a language is registered
anew under its name without an extension that it had, until a later call gives it back
(`stale_after_iff`).
-/

namespace Marginalia

namespace Language

theorem normalizeExtension_idem (ext : Text) :
    normalizeExtension (normalizeExtension ext) = normalizeExtension ext := by
  have hhead : (ext.dropWhile (· == '.')).head? ≠ some '.' := by
    intro h
    simpa [h] using List.head?_dropWhile_not (· == '.') ext
  rw [normalizeExtension, normalizeExtension, Text.dropWhile_toLower hhead, Text.toLower_toLower]

/-- The language with an extension more, unless it is there already. -/
def gain (l : Language) (ext : Text) : Language :=
  if l.extensions.contains ext then l else l.addExtension ext

@[simp] theorem name_gain (l : Language) (ext : Text) : (l.gain ext).name = l.name := by
  rw [gain]
  split <;> rfl

theorem gain_of_mem {l : Language} {ext : Text} (h : ext ∈ l.extensions) : l.gain ext = l :=
  if_pos (List.contains_iff_mem.2 h)

theorem gain_of_notMem {l : Language} {ext : Text} (h : ext ∉ l.extensions) :
    l.gain ext = l.addExtension ext :=
  if_neg (mt List.contains_iff_mem.1 h)

theorem mem_extensions_gain {l : Language} {ext other : Text} (h : normalizeExtension ext = ext) :
    other ∈ (l.gain ext).extensions ↔ other ∈ l.extensions ∨ other = ext := by
  by_cases hmem : ext ∈ l.extensions
  · rw [gain_of_mem hmem]
    exact ⟨.inl, fun hother => hother.elim id fun heq => heq ▸ hmem⟩
  · simp [gain_of_notMem hmem, addExtension, h]

end Language

namespace Registry

variable {r r' : Registry} {l : Language} {exts : List Text} {ext name : Text}

/-- A language is put in its place and given extensions that are free for it; all else stays. -/
structure Updates (r : Registry) (l : Language) (exts : List Text) (r' : Registry) : Prop where
  free : ∀ ext ∈ exts, ∀ owner, r.owners.find? ext = some owner → owner = l.name
  languages_eq : ∀ name,
    r'.languages.find? name = if l.name = name then some l else r.languages.find? name
  owners_eq : ∀ ext,
    r'.owners.find? ext = if ext ∈ exts then some l.name else r.owners.find? ext

theorem ensureFree_eq_ok_iff :
    r.ensureFree ext name = .ok () ↔ ∀ owner, r.owners.find? ext = some owner → owner = name := by
  rw [ensureFree]
  cases r.owners.find? ext with
  | none => simp
  | some owner => by_cases h : owner = name <;> simp [h]

theorem updates_of_add (h : r.add l = .ok r') : r.Updates l l.extensions r' := by
  obtain ⟨_, hfree, h⟩ := exists_of_bind_eq_ok h
  cases h
  refine ⟨fun ext hext => ?_, fun name => ?_, fun ext => ?_⟩
  · exact ensureFree_eq_ok_iff.1 (forM_eq_ok_iff.1 hfree ext hext)
  · exact Table.find?_insert r.languages l.name name l
  · exact Table.find?_foldl_insert_const l.extensions l.name r.owners ext

/-- What holds of a registry after any calls. -/
structure Indexed (r : Registry) : Prop where
  name_eq : ∀ {name l}, r.languages.find? name = some l → l.name = name
  exists_owner : ∀ {ext name}, r.owners.find? ext = some name →
    ∃ l, r.languages.find? name = some l
  owner_eq : ∀ {name l}, r.languages.find? name = some l → ∀ ext ∈ l.extensions,
    r.owners.find? ext = some name

theorem indexed_empty : Indexed {} := ⟨nofun, nofun, nofun⟩

theorem Indexed.of_updates (h : r.Indexed) (hupdates : r.Updates l exts r')
    (hexts : ∀ ext ∈ l.extensions, ext ∈ exts ∨ r.owners.find? ext = some l.name) : r'.Indexed := by
  refine ⟨fun {name other} hfind => ?_, fun {ext name} howner => ?_,
    fun {name other} hfind ext hext => ?_⟩
  · rw [hupdates.languages_eq] at hfind
    split at hfind
    · cases hfind
      assumption
    · exact h.name_eq hfind
  · rw [hupdates.owners_eq] at howner
    rw [hupdates.languages_eq]
    by_cases hname : l.name = name
    · exact ⟨l, if_pos hname⟩
    · rw [if_neg hname]
      split at howner
      · exact absurd (Option.some.inj howner) hname
      · exact h.exists_owner howner
  · rw [hupdates.languages_eq] at hfind
    rw [hupdates.owners_eq]
    split at hfind
    · rename_i hname
      cases hfind
      rcases hexts ext hext with hin | howner
      · rw [if_pos hin, hname]
      · rw [howner, ite_self, hname]
    · -- Another language keeps what it lists: only extensions free for `l` are given away.
      have howner := h.owner_eq hfind ext hext
      split
      · rename_i hin
        rw [hupdates.free ext hin name howner]
      · exact howner

theorem Indexed.find?_of_mem_values (h : r.Indexed) (hl : l ∈ r.languages.values) :
    r.languages.find? l.name = some l := by
  obtain ⟨key, hkey⟩ := Table.mem_values_iff.1 hl
  rwa [h.name_eq hkey]

theorem Indexed.find?_of_byName? (h : r.Indexed) (hfound : r.byName? name = some l) :
    r.languages.find? l.name = some l := by
  apply h.find?_of_mem_values
  rw [byName?] at hfound
  split at hfound
  · rename_i hfind
    cases hfound
    exact Table.mem_values_iff.2 ⟨name, hfind⟩
  · exact List.mem_of_find?_eq_some hfound

/-- A language found by name is given the extension. -/
theorem Indexed.exists_of_aliasExtension (h : r.Indexed)
    (hok : r.aliasExtension ext name = .ok r') :
    ∃ found, r.byName? name = some found ∧ r.languages.find? found.name = some found ∧
      r.Updates (found.gain (Language.normalizeExtension ext))
        [Language.normalizeExtension ext] r' := by
  rw [aliasExtension] at hok
  split at hok
  · cases hok
  · rename_i found hfound
    have hfind := h.find?_of_byName? hfound
    generalize Language.normalizeExtension ext = ext at hok ⊢
    obtain ⟨_, hfree, hok⟩ := exists_of_bind_eq_ok hok
    rw [hfind] at hok
    cases hok
    refine ⟨found, hfound, hfind, ⟨fun other hother => ?_, fun other => ?_, fun other => ?_⟩⟩
    · rw [List.mem_singleton.1 hother, Language.name_gain]
      exact ensureFree_eq_ok_iff.1 hfree
    · dsimp only
      rw [Language.name_gain]
      by_cases hmem : ext ∈ found.extensions
      · rw [if_pos hmem, Language.gain_of_mem hmem]
        split
        · rename_i hname
          rw [← hname, hfind]
        · rfl
      · rw [if_neg hmem, Language.gain_of_notMem hmem]
        exact Table.find?_insert r.languages found.name other _
    · dsimp only
      rw [Table.find?_insert, Language.name_gain]
      simp only [List.mem_singleton, eq_comm]

theorem Indexed.of_apply (h : r.Indexed) (call : Call) (hok : call.apply r = .ok r') :
    r'.Indexed := by
  cases call with
  | add l => exact h.of_updates (updates_of_add hok) fun ext hext => .inl hext
  | give ext name =>
    obtain ⟨found, _, hfind, hupdates⟩ := h.exists_of_aliasExtension hok
    refine h.of_updates hupdates fun other hother => ?_
    rw [Language.mem_extensions_gain (Language.normalizeExtension_idem ext)] at hother
    rw [List.mem_singleton, Language.name_gain]
    exact hother.symm.imp id (h.owner_eq hfind other)

theorem Indexed.step (h : r.Indexed) (call : Call) : (r.step call).Indexed := by
  rw [step_eq]
  split
  · rename_i hok
    exact h.of_apply call hok
  · exact h

theorem indexed_after (calls : List Call) : (after calls).Indexed :=
  List.foldlRecOn (motive := Indexed) calls Registry.step indexed_empty
    fun _ h call _ => h.step call

/-- After any calls, failed ones among them, the two tables agree, and a call that fails changes
neither of them. -/
theorem index_after (calls : List Call) :
    (∀ ext name, (after calls).owners.find? ext = some name →
      ∃ l, (after calls).languages.find? name = some l ∧ l.name = name) ∧
    (∀ key l, (after calls).languages.find? key = some l →
      ∀ ext ∈ l.extensions, (after calls).owners.find? ext = some l.name) ∧
    (∀ key l key' l' ext, (after calls).languages.find? key = some l →
      (after calls).languages.find? key' = some l' →
      ext ∈ l.extensions → ext ∈ l'.extensions → key = key') ∧
    ∀ (call : Call) e r, call.perform.run (after calls) = .error e r → r = after calls := by
  have h := indexed_after calls
  refine ⟨fun ext name howner => ?_, fun key l hfind ext hext => ?_,
    fun key l key' l' ext hfind hfind' hext hext' => ?_, fun call e r herror => ?_⟩
  · obtain ⟨l, hfind⟩ := h.exists_owner howner
    exact ⟨l, hfind, h.name_eq hfind⟩
  · rw [h.name_eq hfind]
    exact h.owner_eq hfind ext hext
  · have howner := h.owner_eq hfind ext hext
    rw [h.owner_eq hfind' ext hext'] at howner
    exact (Option.some.inj howner).symm
  · rw [run_perform] at herror
    cases happly : call.apply (after calls) with
    | ok r' =>
      rw [happly] at herror
      cases herror
    | error e' =>
      rw [happly] at herror
      cases herror
      rfl

/-! ## Extensions that lead to a language without them -/

/-- The extension leads to a language that does not list it. -/
def Stale (r : Registry) (ext name : Text) : Prop :=
  r.owners.find? ext = some name ∧ ∀ l, r.languages.find? name = some l → ext ∉ l.extensions

namespace Call

/-- The call registers a language without an extension that belongs to its name already. -/
def Drops (r : Registry) (ext name : Text) : Call → Prop
  | add l =>
    (∃ r', r.add l = .ok r') ∧ l.name = name ∧ r.owners.find? ext = some name ∧ ext ∉ l.extensions
  | give _ _ => False

/-- The call makes the language list the extension. -/
def Gives (r : Registry) (ext name : Text) : Call → Prop
  | add l => (∃ r', r.add l = .ok r') ∧ l.name = name ∧ ext ∈ l.extensions
  | give ext' name' =>
    (∃ r', r.aliasExtension ext' name' = .ok r') ∧ Language.normalizeExtension ext' = ext ∧
      ∃ found, r.byName? name' = some found ∧ found.name = name

variable {call : Call}

theorem Drops.exists_apply (h : call.Drops r ext name) : ∃ r', call.apply r = .ok r' := by
  cases call with
  | add l => exact h.1
  | give _ _ => cases h

theorem Gives.exists_apply (h : call.Gives r ext name) : ∃ r', call.apply r = .ok r' := by
  cases call with
  | add l => exact h.1
  | give _ _ => exact h.1

end Call

theorem Updates.stale_iff_of_ne (h : r.Updates l exts r') (hname : l.name ≠ name) :
    r'.Stale ext name ↔ r.Stale ext name := by
  have howner : r'.owners.find? ext = some name ↔ r.owners.find? ext = some name := by
    rw [h.owners_eq]
    split
    · rename_i hext
      exact ⟨fun heq => absurd (Option.some.inj heq) hname,
        fun heq => absurd (h.free ext hext name heq).symm hname⟩
    · rfl
  rw [Stale, Stale, howner, h.languages_eq, if_neg hname]

theorem Updates.stale_iff (h : r.Updates l exts r') :
    r'.Stale ext l.name ↔
      (ext ∈ exts ∨ r.owners.find? ext = some l.name) ∧ ext ∉ l.extensions := by
  have howner : r'.owners.find? ext = some l.name ↔
      ext ∈ exts ∨ r.owners.find? ext = some l.name := by
    rw [h.owners_eq]
    by_cases hext : ext ∈ exts <;> simp [hext]
  rw [Stale, howner, h.languages_eq, if_pos rfl]
  simp

theorem stale_add_iff (h : r.add l = .ok r') :
    r'.Stale ext name ↔
      (Call.add l).Drops r ext name ∨ r.Stale ext name ∧ ¬ (Call.add l).Gives r ext name := by
  have hupdates := updates_of_add h
  have hok : ∃ r', r.add l = .ok r' := ⟨r', h⟩
  simp only [Call.Drops, Call.Gives, hok, true_and]
  by_cases hname : l.name = name
  · subst hname
    rw [hupdates.stale_iff]
    constructor
    · rintro ⟨hext | howner, hnot⟩
      · exact absurd hext hnot
      · exact .inl ⟨rfl, howner, hnot⟩
    · rintro (⟨_, howner, hnot⟩ | ⟨hstale, hnot⟩)
      · exact ⟨.inr howner, hnot⟩
      · exact ⟨.inr hstale.1, fun hext => hnot ⟨rfl, hext⟩⟩
  · rw [hupdates.stale_iff_of_ne hname]
    simp only [hname, false_and, not_false_eq_true, and_true, false_or]

theorem Indexed.stale_aliasExtension_iff (h : r.Indexed) {ext' name' : Text}
    (hok : r.aliasExtension ext' name' = .ok r') :
    r'.Stale ext name ↔ r.Stale ext name ∧ ¬ (Call.give ext' name').Gives r ext name := by
  obtain ⟨found, hfound, hfind, hupdates⟩ := h.exists_of_aliasExtension hok
  have hgives : (Call.give ext' name').Gives r ext name ↔
      Language.normalizeExtension ext' = ext ∧ found.name = name := by
    simp only [Call.Gives, hok, Except.ok.injEq, exists_eq', hfound, Option.some.injEq, true_and,
      exists_eq_left']
  rw [hgives]
  by_cases hname : found.name = name
  · subst hname
    have hstale : r.Stale ext found.name ↔
        r.owners.find? ext = some found.name ∧ ext ∉ found.extensions := by
      simp [Stale, hfind]
    rw [← Language.name_gain found (Language.normalizeExtension ext'), hupdates.stale_iff,
      Language.mem_extensions_gain (Language.normalizeExtension_idem ext'), Language.name_gain,
      hstale, List.mem_singleton]
    constructor
    · rintro ⟨hext | howner, hnot⟩
      · exact absurd (.inr hext) hnot
      · exact ⟨⟨howner, fun hext => hnot (.inl hext)⟩, fun hext => hnot (.inr hext.1.symm)⟩
    · rintro ⟨⟨howner, hnot⟩, hext⟩
      exact ⟨.inr howner, fun hor => hor.elim hnot fun heq => hext ⟨heq.symm, rfl⟩⟩
  · rw [hupdates.stale_iff_of_ne (by rwa [Language.name_gain])]
    simp only [hname, and_false, not_false_eq_true, and_true]

theorem Indexed.stale_step_iff (h : r.Indexed) (call : Call) :
    (r.step call).Stale ext name ↔
      call.Drops r ext name ∨ r.Stale ext name ∧ ¬ call.Gives r ext name := by
  rw [step_eq]
  split
  · rename_i r' hok
    cases call with
    | add l => exact stale_add_iff hok
    | give ext' name' =>
      rw [h.stale_aliasExtension_iff hok]
      exact (or_iff_right id).symm
  · rename_i e herror
    have hfail : ¬ ∃ r', call.apply r = .ok r' := by simp [herror]
    have hdrops : ¬ call.Drops r ext name := fun hd => hfail hd.exists_apply
    have hgives : ¬ call.Gives r ext name := fun hg => hfail hg.exists_apply
    simp only [hdrops, hgives, not_false_eq_true, and_true, false_or]

theorem after_concat (calls : List Call) (call : Call) :
    after (calls ++ [call]) = (after calls).step call := by
  rw [after, List.foldl_append, List.foldl_cons, List.foldl_nil, after]

/-- A call among some calls and a last one is the last one or stands before it. -/
theorem concat_eq_append_cons_iff {calls before later : List Call} {last call : Call} :
    calls ++ [last] = before ++ call :: later ↔
      calls = before ∧ last = call ∧ later = [] ∨
        ∃ later', calls = before ++ call :: later' ∧ later = later' ++ [last] := by
  rcases List.eq_nil_or_concat later with rfl | ⟨later, other, rfl⟩
  · simp
  · have happend : before ++ call :: later.concat other = (before ++ call :: later) ++ [other] := by
      simp
    rw [happend, List.append_singleton_inj, List.concat_eq_append]
    constructor
    · rintro ⟨rfl, rfl⟩
      exact .inr ⟨later, rfl, rfl⟩
    · rintro (⟨_, _, hnil⟩ | ⟨later', rfl, hlater⟩)
      · exact absurd hnil (by simp)
      · obtain ⟨rfl, rfl⟩ := List.append_singleton_inj.1 hlater
        exact ⟨rfl, rfl⟩

/-- An extension leads to a language that does not list it exactly if one of the calls has dropped
it by registering the language anew and no later call has given it back. -/
theorem stale_after_iff (calls : List Call) (ext name : Text) :
    (after calls).Stale ext name ↔
      ∃ before call later, calls = before ++ call :: later ∧
        call.Drops (after before) ext name ∧
        ∀ mid next rest, later = mid ++ next :: rest →
          ¬ next.Gives (after (before ++ call :: mid)) ext name := by
  -- On the last call: it drops the extension, or an earlier drop outlasts it.
  induction calls using List.reverseRecOn with
  | nil =>
    constructor
    · rintro ⟨howner, _⟩
      cases howner
    · rintro ⟨before, call, later, hcalls, _⟩
      simp at hcalls
  | append_singleton calls last ih =>
    rw [after_concat, (indexed_after calls).stale_step_iff, ih]
    constructor
    · rintro (hdrops | ⟨⟨before, call, later, rfl, hdrops, hkept⟩, hgives⟩)
      · exact ⟨calls, last, [], rfl, hdrops, by simp⟩
      · refine ⟨before, call, later ++ [last], by simp, hdrops, fun mid next rest hlater => ?_⟩
        rcases concat_eq_append_cons_iff.1 hlater with ⟨rfl, rfl, _⟩ | ⟨rest, hlater, _⟩
        · exact hgives
        · exact hkept mid next rest hlater
    · rintro ⟨before, call, later, hcalls, hdrops, hkept⟩
      rcases concat_eq_append_cons_iff.1 hcalls with ⟨rfl, rfl, _⟩ | ⟨later, rfl, rfl⟩
      · exact .inl hdrops
      · refine .inr ⟨⟨before, call, later, rfl, hdrops, fun mid next rest hlater => ?_⟩, ?_⟩
        · exact hkept mid next (rest ++ [last]) (by simp [hlater])
        · exact hkept later last [] rfl

/-- A language that is registered anew leaves its older extensions behind. -/
example :
    let calls : List Call := [.add { name := "L", extensions := ["a"] },
      .add { name := "L", extensions := ["b"] }]
    (after calls).owners.find? "a" = some "L" ∧
      ((after calls).languages.find? "L").map (·.extensions) = some [['b']] := by
  decide

end Registry

end Marginalia
