import Marginalia.Text.Markup

/-! # Reading markup back

What is written as an entity can be read back, and no bracket of a tag is left in between.
-/

namespace Marginalia.Text

/-- Reads the entities of `escapeMarkup` back. -/
def unescapeMarkup : Text → Text
  | '&' :: 'a' :: 'm' :: 'p' :: ';' :: t => '&' :: unescapeMarkup t
  | '&' :: 'l' :: 't' :: ';' :: t => '<' :: unescapeMarkup t
  | '&' :: 'g' :: 't' :: ';' :: t => '>' :: unescapeMarkup t
  | c :: t => c :: unescapeMarkup t
  | [] => []

theorem escapeMarkup_cons (c : Char) (t : Text) :
    escapeMarkup (c :: t) = escapeChar c ++ escapeMarkup t := List.flatMap_cons

theorem escapeChar_cases (c : Char) :
    (c = '&' ∨ c = '<' ∨ c = '>') ∨ (c ≠ '&' ∧ c ≠ '<' ∧ c ≠ '>' ∧ escapeChar c = [c]) := by
  by_cases hamp : c = '&'
  · exact .inl (.inl hamp)
  by_cases hlt : c = '<'
  · exact .inl (.inr (.inl hlt))
  by_cases hgt : c = '>'
  · exact .inl (.inr (.inr hgt))
  exact .inr ⟨hamp, hlt, hgt, by simp [escapeChar]⟩

theorem unescapeMarkup_cons {c : Char} (hc : c ≠ '&') (t : Text) :
    unescapeMarkup (c :: t) = c :: unescapeMarkup t := by
  rw [unescapeMarkup.eq_def]
  split <;> simp_all

theorem unescapeMarkup_escapeMarkup (t : Text) : unescapeMarkup (escapeMarkup t) = t := by
  induction t with
  | nil => rfl
  | cons c t ih =>
    rw [escapeMarkup_cons]
    obtain (rfl | rfl | rfl) | ⟨hamp, _, _, hc⟩ := escapeChar_cases c
    · exact congrArg _ ih
    · exact congrArg _ ih
    · exact congrArg _ ih
    · rw [hc, List.singleton_append, unescapeMarkup_cons hamp, ih]

theorem escapeMarkup_injective {s t : Text} (h : escapeMarkup s = escapeMarkup t) : s = t := by
  rw [← unescapeMarkup_escapeMarkup s, h, unescapeMarkup_escapeMarkup]

theorem not_mem_escapeMarkup (t : Text) : '<' ∉ escapeMarkup t ∧ '>' ∉ escapeMarkup t := by
  induction t with
  | nil => exact ⟨List.not_mem_nil, List.not_mem_nil⟩
  | cons c t ih =>
    rw [escapeMarkup_cons, List.mem_append, List.mem_append, not_or, not_or]
    obtain (rfl | rfl | rfl) | ⟨_, hlt, hgt, hc⟩ := escapeChar_cases c
    · exact ⟨⟨by decide, ih.1⟩, by decide, ih.2⟩
    · exact ⟨⟨by decide, ih.1⟩, by decide, ih.2⟩
    · exact ⟨⟨by decide, ih.1⟩, by decide, ih.2⟩
    · rw [hc, List.mem_singleton, List.mem_singleton]
      exact ⟨⟨Ne.symm hlt, ih.1⟩, Ne.symm hgt, ih.2⟩

/-- The character that the first entity of an attribute stands for. -/
def firstOfAttribute : Text → Option Char
  | '&' :: 'q' :: _ => some '"'
  | '&' :: 'a' :: _ => some '&'
  | '&' :: 'l' :: _ => some '<'
  | '&' :: 'g' :: _ => some '>'
  | c :: _ => some c
  | [] => none

def attributeChar (c : Char) : Text := if c = '"' then "&quot;" else escapeChar c

theorem escapeAttribute_cons (c : Char) (t : Text) :
    escapeAttribute (c :: t) = attributeChar c ++ escapeAttribute t := List.flatMap_cons

theorem firstOfAttribute_append (c : Char) (t : Text) :
    firstOfAttribute (attributeChar c ++ t) = some c := by
  by_cases hquote : c = '"'
  · subst hquote
    rfl
  · rw [attributeChar, if_neg hquote]
    obtain (rfl | rfl | rfl) | ⟨hamp, _, _, hc⟩ := escapeChar_cases c
    · rfl
    · rfl
    · rfl
    · rw [hc, List.singleton_append, firstOfAttribute.eq_def]
      split <;> simp_all

theorem escapeAttribute_injective {s t : Text} (h : escapeAttribute s = escapeAttribute t) :
    s = t := by
  have hfirst := congrArg firstOfAttribute h
  induction s generalizing t with
  | nil =>
    cases t with
    | nil => rfl
    | cons d t =>
      rw [escapeAttribute_cons, firstOfAttribute_append] at hfirst
      cases hfirst
  | cons c s ih =>
    rw [escapeAttribute_cons, firstOfAttribute_append] at hfirst
    cases t with
    | nil => cases hfirst
    | cons d t =>
      rw [escapeAttribute_cons, firstOfAttribute_append] at hfirst
      obtain rfl := Option.some.inj hfirst
      rw [escapeAttribute_cons, escapeAttribute_cons] at h
      have htail := List.append_cancel_left h
      rw [ih htail (congrArg firstOfAttribute htail)]

theorem quote_not_mem_escapeAttribute (t : Text) : '"' ∉ escapeAttribute t := by
  induction t with
  | nil => exact List.not_mem_nil
  | cons c t ih =>
    rw [escapeAttribute_cons, List.mem_append, not_or]
    refine ⟨?_, ih⟩
    by_cases hquote : c = '"'
    · subst hquote
      decide
    · rw [attributeChar, if_neg hquote]
      obtain (rfl | rfl | rfl) | ⟨_, _, _, hc⟩ := escapeChar_cases c
      · decide
      · decide
      · decide
      · rw [hc, List.mem_singleton]
        exact Ne.symm hquote

theorem append_inj_of_not_mem {c : Char} {s t u v : Text} (hs : c ∉ s) (ht : c ∉ t)
    (h : s ++ c :: u = t ++ c :: v) : s = t ∧ u = v := by
  induction s generalizing t with
  | nil =>
    cases t with
    | nil => exact ⟨rfl, List.tail_eq_of_cons_eq h⟩
    | cons d t => exact absurd (List.head_eq_of_cons_eq h ▸ List.mem_cons_self) ht
  | cons d s ih =>
    cases t with
    | nil => exact absurd (List.head_eq_of_cons_eq h ▸ List.mem_cons_self) hs
    | cons e t =>
      rw [List.mem_cons, not_or] at hs ht
      rw [List.cons_append, List.cons_append, List.cons.injEq] at h
      obtain ⟨rfl, hrest⟩ := ih hs.2 ht.2 h.2
      exact ⟨by rw [h.1], hrest⟩

/-- Deletes the given texts wherever they stand, from left to right, while the first `skip`
characters belong to one that is being deleted. -/
def deleteFrom (parts : List Text) : Nat → Text → Text
  | _, [] => []
  | skip + 1, _ :: t => deleteFrom parts skip t
  | 0, c :: t =>
    match parts.find? fun part => startsWith part (c :: t) with
    | none => c :: deleteFrom parts 0 t
    | some part => deleteFrom parts (part.length - 1) t

def delete (parts : List Text) (t : Text) : Text := deleteFrom parts 0 t

variable {parts : List Text}

theorem deleteFrom_append (s t : Text) : deleteFrom parts s.length (s ++ t) = delete parts t := by
  induction s with
  | nil => rfl
  | cons c s ih => exact ih

theorem delete_append_of_find? {part t : Text} (hne : part ≠ [])
    (h : (parts.find? fun part' => startsWith part' (part ++ t)) = some part) :
    delete parts (part ++ t) = delete parts t := by
  cases part with
  | nil => exact absurd rfl hne
  | cons c part =>
    rw [List.cons_append] at h ⊢
    rw [delete, deleteFrom, h]
    exact deleteFrom_append part t

theorem delete_append_of_not_mem {c : Char} (hparts : ∀ part ∈ parts, part.head? = some c)
    {s : Text} (hs : c ∉ s) (t : Text) : delete parts (s ++ t) = s ++ delete parts t := by
  induction s with
  | nil => rfl
  | cons d s ih =>
    rw [List.mem_cons, not_or] at hs
    have hfind : (parts.find? fun part => startsWith part (d :: (s ++ t))) = none := by
      rw [List.find?_eq_none]
      intro part hpart hstarts
      obtain ⟨rest, hrest⟩ := Option.isSome_iff_exists.1 hstarts
      have hhead := hparts part hpart
      cases part with
      | nil => cases hhead
      | cons e part =>
        rw [List.head?_cons, Option.some.injEq] at hhead
        rw [afterHead?_eq_some_iff, List.cons_append, List.cons.injEq] at hrest
        exact hs.1 (hhead.symm.trans hrest.1.symm)
    rw [List.cons_append, delete, deleteFrom, hfind, List.cons_append]
    exact congrArg (d :: ·) (ih hs.2)

theorem delete_of_not_mem {c : Char} (hparts : ∀ part ∈ parts, part.head? = some c) {s : Text}
    (hs : c ∉ s) : delete parts s = s := by
  have happend := delete_append_of_not_mem hparts hs []
  rwa [List.append_nil, delete, delete, deleteFrom, List.append_nil] at happend

end Marginalia.Text
