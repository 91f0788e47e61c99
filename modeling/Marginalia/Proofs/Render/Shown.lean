import Marginalia.Proofs.Render.Highlight
import Mathlib.Data.List.Forall2

/-! # What a rendered page shows

Whatever the code of the sections holds, each of them is shown by one entry, and its code can be
read back from that entry's markup.
-/

namespace Marginalia

open Text (Newlines dropNewlines dropEndNewlines escapeMarkup unescapeMarkup)

namespace Text

theorem newline_not_mem_escapeMarkup {t : Text} (h : '\n' ∉ t) : '\n' ∉ escapeMarkup t := by
  induction t with
  | nil => exact h
  | cons c t ih =>
    rw [List.mem_cons, not_or] at h
    rw [escapeMarkup_cons, List.mem_append, not_or]
    refine ⟨?_, ih h.2⟩
    obtain (rfl | rfl | rfl) | ⟨_, _, _, hc⟩ := escapeChar_cases c
    · decide
    · decide
    · decide
    · rw [hc, List.mem_singleton]
      exact h.1

theorem escapeMarkup_ne_nil {t : Text} (h : t ≠ []) : escapeMarkup t ≠ [] := by
  intro hnil
  rw [← unescapeMarkup_escapeMarkup t, hnil] at h
  exact h rfl

end Text

namespace Highlighter

theorem newline_not_mem_plainRow {row : Text} (h : '\n' ∉ row) : '\n' ∉ plainRow row := by
  have hescaped := Text.newline_not_mem_escapeMarkup h
  rw [plainRow]
  split
  · rw [List.mem_append, List.mem_append, not_or, not_or]
    exact ⟨by decide, hescaped, by decide⟩
  · exact hescaped

theorem plainRow_ne_nil {row : Text} (h : row ≠ []) : plainRow row ≠ [] := by
  rw [plainRow]
  split
  · exact List.cons_ne_nil _ _
  · exact Text.escapeMarkup_ne_nil h

theorem plainHighlight_nil : plainHighlight [] = [] := rfl

theorem plainHighlight_newlines_append {run : Text} (h : Newlines run) (t : Text) :
    plainHighlight (run ++ t) = run ++ plainHighlight t := by
  induction run with
  | nil => rfl
  | cons c run ih =>
    obtain ⟨rfl, hrun⟩ := Text.newlines_cons.1 h
    rw [List.cons_append, ← List.nil_append ('\n' :: (run ++ t)), plainHighlight_newline, ih hrun]
    rfl

theorem plainHighlight_append_newlines {run : Text} (h : Newlines run) (t : Text) :
    plainHighlight (t ++ run) = plainHighlight t ++ run := by
  cases run with
  | nil => rw [List.append_nil, List.append_nil]
  | cons c run =>
    obtain ⟨rfl, hrun⟩ := Text.newlines_cons.1 h
    have hnil : plainHighlight run = run := by
      have happend := plainHighlight_newlines_append hrun []
      rwa [List.append_nil, plainHighlight_nil, List.append_nil] at happend
    rw [plainHighlight_newline, hnil]

theorem head?_plainHighlight {t : Text} (h : t.head? ≠ some '\n') :
    (plainHighlight t).head? ≠ some '\n' := by
  have hrow {r : Text} (hr : '\n' ∉ r) (hne : r ≠ []) (x : Text) :
      (plainRow r ++ x).head? ≠ some '\n' := by
    obtain ⟨c, rest, hrow⟩ := List.exists_cons_of_ne_nil (plainRow_ne_nil hne)
    rw [hrow, List.cons_append, List.head?_cons]
    intro hc
    refine newline_not_mem_plainRow hr ?_
    rw [hrow, Option.some.inj hc]
    exact List.mem_cons_self
  induction t using Text.rows_induction with
  | row r hr =>
    by_cases hne : r = []
    · subst hne
      exact h
    · rw [plainHighlight_row hr, ← List.append_nil (plainRow r)]
      exact hrow hr hne []
  | newline r t hr _ =>
    rw [plainHighlight_row_newline hr]
    refine hrow hr ?_ _
    rintro rfl
    exact h rfl

theorem getLast?_plainHighlight {t : Text} (h : t.getLast? ≠ some '\n') :
    (plainHighlight t).getLast? ≠ some '\n' := by
  suffices hlast : t ≠ [] → ∃ c, (plainHighlight t).getLast? = some c ∧ c ≠ '\n' by
    by_cases hne : t = []
    · subst hne
      exact h
    · obtain ⟨c, hc, hcn⟩ := hlast hne
      rw [hc]
      simpa using hcn
  induction t using Text.rows_induction with
  | row r hr =>
    intro hne
    rw [plainHighlight_row hr]
    have hlast : (plainRow r).getLast? ≠ none :=
      mt List.getLast?_eq_none_iff.1 (plainRow_ne_nil hne)
    obtain ⟨c, hc⟩ := Option.ne_none_iff_exists'.1 hlast
    refine ⟨c, hc, ?_⟩
    rintro rfl
    exact newline_not_mem_plainRow hr (List.mem_of_mem_getLast? hc)
  | newline r t hr ih =>
    intro _
    have hne : t ≠ [] := by
      rintro rfl
      exact h (by simp)
    have hlast : t.getLast? ≠ some '\n' := by
      intro hlast
      refine h ?_
      rw [List.append_cons, List.getLast?_append, hlast]
      rfl
    obtain ⟨c, hc, hcn⟩ := ih hlast hne
    refine ⟨c, ?_, hcn⟩
    rw [plainHighlight_row_newline hr, List.append_cons, List.getLast?_append, hc]
    rfl

theorem dropNewlines_plainHighlight (t : Text) :
    dropNewlines (plainHighlight t) = plainHighlight (dropNewlines t) := by
  obtain ⟨run, hrun, hsplit, hhead⟩ := Text.exists_dropNewlines t
  calc
    dropNewlines (plainHighlight t) = dropNewlines (run ++ plainHighlight (dropNewlines t)) := by
      rw [← plainHighlight_newlines_append hrun, ← hsplit]
    _ = plainHighlight (dropNewlines t) := by
      rw [Text.dropNewlines_append hrun, Text.dropNewlines_of_head (head?_plainHighlight hhead)]

theorem dropEndNewlines_plainHighlight (t : Text) :
    dropEndNewlines (plainHighlight t) = plainHighlight (dropEndNewlines t) := by
  obtain ⟨run, hrun, hsplit, hlast⟩ := Text.exists_dropEndNewlines t
  calc
    dropEndNewlines (plainHighlight t) =
        dropEndNewlines (plainHighlight (dropEndNewlines t) ++ run) := by
      rw [← plainHighlight_append_newlines hrun, ← hsplit]
    _ = plainHighlight (dropEndNewlines t) := by
      rw [Text.dropEndNewlines_append hrun,
        Text.dropEndNewlines_of_getLast (getLast?_plainHighlight hlast)]

end Highlighter

namespace Render

open Highlighter (openTag closeTag plainRow plainHighlight)

def codeTags : List Text := [openTag, closeTag]

/-- The markup of some code, up to newlines around it. -/
structure Shown (code markup : Text) : Prop where
  code_eq : ∃ lead trail : Text, Newlines lead ∧ Newlines trail ∧
    code = lead ++ unescapeMarkup (Text.delete codeTags markup) ++ trail
  noBrackets : '<' ∉ Text.delete codeTags markup ∧ '>' ∉ Text.delete codeTags markup

theorem head?_of_mem_codeTags : ∀ tag ∈ codeTags, tag.head? = some '<' := by
  intro tag htag
  simp only [codeTags, List.mem_cons, List.not_mem_nil, or_false] at htag
  rcases htag with rfl | rfl <;> rfl

theorem delete_openTag (t : Text) :
    Text.delete codeTags (openTag ++ t) = Text.delete codeTags t := by
  refine Text.delete_append_of_find? (List.cons_ne_nil _ _) ?_
  rw [codeTags, List.find?_cons_of_pos]
  rw [Text.startsWith, Text.afterHead?_eq_some_iff.2 rfl]
  rfl

theorem delete_closeTag (t : Text) :
    Text.delete codeTags (closeTag ++ t) = Text.delete codeTags t :=
  Text.delete_append_of_find? (List.cons_ne_nil _ _) rfl

theorem delete_escapeMarkup (t u : Text) :
    Text.delete codeTags (escapeMarkup t ++ u) = escapeMarkup t ++ Text.delete codeTags u :=
  Text.delete_append_of_not_mem head?_of_mem_codeTags (Text.not_mem_escapeMarkup t).1 u

theorem delete_plainRow (row t : Text) :
    Text.delete codeTags (plainRow row ++ t) = escapeMarkup row ++ Text.delete codeTags t := by
  rw [plainRow]
  split
  · rw [List.append_assoc, List.append_assoc, delete_openTag, delete_escapeMarkup, delete_closeTag]
  · exact delete_escapeMarkup row t

theorem delete_plainHighlight (t : Text) :
    Text.delete codeTags (plainHighlight t) = escapeMarkup t := by
  induction t using Text.rows_induction with
  | row r hr =>
    rw [Highlighter.plainHighlight_row hr, ← List.append_nil (plainRow r), delete_plainRow]
    exact List.append_nil _
  | newline r t hr ih =>
    have hnewline : Text.delete codeTags ('\n' :: plainHighlight t) = '\n' :: escapeMarkup t := by
      rw [← ih]
      rfl
    rw [Highlighter.plainHighlight_row_newline hr, delete_plainRow, hnewline,
      Text.escapeMarkup_append]
    rfl

theorem shown_plainHighlight {lead trail : Text} (hlead : Newlines lead) (kept : Text)
    (htrail : Newlines trail) : Shown (lead ++ kept ++ trail) (plainHighlight kept) := by
  constructor
  · refine ⟨lead, trail, hlead, htrail, ?_⟩
    rw [delete_plainHighlight, Text.unescapeMarkup_escapeMarkup]
  · rw [delete_plainHighlight]
    exact Text.not_mem_escapeMarkup kept

theorem shown_escapeMarkup (code : Text) : Shown code (escapeMarkup code) := by
  have hdelete : Text.delete codeTags (escapeMarkup code) = escapeMarkup code :=
    Text.delete_of_not_mem head?_of_mem_codeTags (Text.not_mem_escapeMarkup code).1
  constructor
  · refine ⟨[], [], Text.newlines_nil, Text.newlines_nil, ?_⟩
    rw [hdelete, Text.unescapeMarkup_escapeMarkup, List.nil_append, List.append_nil]
  · rw [hdelete]
    exact Text.not_mem_escapeMarkup code

theorem shown_fragmentsFrom {lead kept : Text} (hlead : Newlines lead) {s : Section}
    (hs : s.code = lead ++ kept) (rest : List Section) :
    List.Forall₂ (fun s markup => Shown s.code markup) (s :: rest)
      (Divider.fragmentsFrom (plainHighlight kept) (rest.map fun t => plainHighlight t.code)) := by
  induction rest generalizing s lead kept with
  | nil =>
    have hshown := shown_plainHighlight hlead kept Text.newlines_nil
    rw [List.append_nil, ← hs] at hshown
    exact .cons hshown .nil
  | cons t rest ih =>
    obtain ⟨trail, htrail, hkept, _⟩ := Text.exists_dropEndNewlines kept
    obtain ⟨lead', hlead', hcode, _⟩ := Text.exists_dropNewlines t.code
    have hshown := shown_plainHighlight hlead (dropEndNewlines kept) htrail
    rw [List.append_assoc, ← hkept, ← hs] at hshown
    rw [List.map_cons, Divider.fragmentsFrom, Highlighter.dropEndNewlines_plainHighlight,
      Highlighter.dropNewlines_plainHighlight]
    exact .cons hshown (ih hlead' hcode)

theorem shown_map {f : Section → Text} (hf : ∀ s : Section, Shown s.code (f s))
    (sections : List Section) :
    List.Forall₂ (fun s markup => Shown s.code markup) sections (sections.map f) := by
  rw [List.forall₂_map_right_iff, List.forall₂_same]
  exact fun s _ => hf s

/-- Every section's code is shown by its fragment, whether highlighting succeeds or not. -/
theorem shown_fragments (l : Language) (sections : List Section) :
    List.Forall₂ (fun s markup => Shown s.code markup) sections (fragments l sections .plain) := by
  have hplain (code : Text) : Shown code (plainHighlight code) := by
    have hshown := shown_plainHighlight Text.newlines_nil code Text.newlines_nil
    rwa [List.nil_append, List.append_nil] at hshown
  have hescaped := shown_map (fun s => shown_escapeMarkup s.code) sections
  cases sections with
  | nil => exact .nil
  | cons s rest =>
    cases hl : l.inlineDelimiter? with
    | none =>
      have hok : highlightSections l (s :: rest) .plain =
          .ok ((s :: rest).map fun t => plainHighlight t.code) := by
        rw [highlightSections, hl]
        rfl
      rw [fragments, hok]
      exact shown_map (fun t => hplain t.code) _
    | some delimiter =>
      cases hdivider : Divider.isDividerLine (delimiter ++ Divider.word) with
      | true =>
        rw [fragments, highlightSections_marked hl hdivider]
        by_cases hown : ownDividers delimiter (s :: rest) = 0
        · rw [if_pos hown]
          exact shown_fragmentsFrom Text.newlines_nil rfl rest
        · rw [if_neg hown]
          exact hescaped
      | false =>
        rw [fragments, highlightSections_unmarked hl hdivider]
        by_cases hrest : rest = []
        · rw [if_pos hrest, hrest]
          exact .cons (hplain s.code) .nil
        · rw [if_neg hrest]
          exact hescaped

def RenderedSection.body (e : RenderedSection) : Text :=
  match e.anchor with
  | none => e.code
  | some anchor => (Text.afterHead? (anchorMarkup anchor) e.code).getD e.code

/-- An entry has the anchor of a section and shows its code. -/
structure Shows (s : Section) (e : RenderedSection) : Prop where
  anchor_eq : e.anchor = s.anchor?
  startsWith_iff : ∀ anchor, anchorMarkup anchor <+: e.code ↔ s.anchor? = some anchor
  code : Shown s.code e.body

theorem not_anchor_of_shown {code markup : Text} (h : Shown code markup) (anchor : Text) :
    ¬ anchorMarkup anchor <+: markup := by
  rintro ⟨rest, rfl⟩
  exact h.noBrackets.1 List.mem_cons_self

theorem anchorMarkup_eq (anchor : Text) :
    anchorMarkup anchor = "<a class=\"section-anchor\" id=\"" ++ (Text.escapeAttribute anchor ++
      '"' :: (" href=\"#" ++ (Text.escapeAttribute anchor ++ "\"></a>"))) := by
  have hassoc (head id link tail : Text) :
      head ++ id ++ '"' :: link ++ id ++ tail = head ++ (id ++ '"' :: (link ++ (id ++ tail))) := by
    simp only [List.append_assoc, List.cons_append]
  exact hassoc _ _ " href=\"#" _

theorem anchor_eq_of_append {a b s t : Text} (h : anchorMarkup a ++ s = anchorMarkup b ++ t) :
    a = b := by
  rw [anchorMarkup_eq, anchorMarkup_eq, List.append_assoc, List.append_assoc, List.append_assoc,
    List.append_assoc] at h
  have hid := (Text.append_inj_of_not_mem (Text.quote_not_mem_escapeAttribute a)
    (Text.quote_not_mem_escapeAttribute b) (List.append_cancel_left h)).1
  exact Text.escapeAttribute_injective hid

theorem shows_renderSection (l : Language) (r : DocRenderer) {s : Section} {markup : Text}
    (h : Shown s.code markup) : Shows s (renderSection l r s markup) := by
  constructor
  · rfl
  · intro anchor
    rw [renderSection]
    cases hanchor : s.anchor? with
    | none => exact ⟨fun hstart => absurd hstart (not_anchor_of_shown h anchor), nofun⟩
    | some own =>
      constructor
      · rintro ⟨rest, hrest⟩
        rw [anchor_eq_of_append hrest]
      · rintro hown
        rw [Option.some.inj hown]
        exact List.prefix_append _ _
  · have hbody : (renderSection l r s markup).body = markup := by
      rw [RenderedSection.body, renderSection]
      cases s.anchor? with
      | none => rfl
      | some own =>
        change (Text.afterHead? _ (anchorMarkup own ++ markup)).getD _ = _
        rw [Text.afterHead?_eq_some_iff.2 rfl, Option.getD_some]
    rw [hbody]
    exact h

/-- There is one entry for each section, in order, and each of them shows its section, whatever the
code holds. -/
theorem shows_renderSections (l : Language) (sections : List Section) (r : DocRenderer) :
    List.Forall₂ Shows sections (renderSections l sections .plain r) := by
  have hshown := shown_fragments l sections
  rw [renderSections]
  generalize fragments l sections .plain = markups at hshown
  induction hshown with
  | nil => exact .nil
  | cons h _ ih => exact .cons (shows_renderSection l r h) ih

end Render

end Marginalia
