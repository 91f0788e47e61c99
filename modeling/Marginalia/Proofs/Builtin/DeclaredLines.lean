import Marginalia.Proofs.Builtin.Declaration
import Marginalia.Proofs.Text.Indent

/-! # Declarations line by line

The lines before a declaration are its lead if they are blank and then decorators
(`lead_of_leads`). The code declares the name on a line of its own if, and nearly only if, the lines
before it are such a lead (`declares_of_lines`, `leads_of_declares`).
-/

namespace Marginalia

namespace Text

theorem blank_of_indentation {t : Text} (h : ∀ c ∈ t, isIndentChar c = true) :
    ∀ c ∈ t, isBlankChar c = true := fun c hc => isBlankChar_of_isIndentChar (h c hc)

theorem newline_not_mem_indentation {t : Text} (h : ∀ c ∈ t, isIndentChar c = true) : '\n' ∉ t :=
  fun hmem => absurd (h _ hmem) (by decide)

/-- A row and its newline. -/
def Whole (line : Text) : Prop := ∃ row, '\n' ∉ row ∧ line = row ++ ['\n']

theorem whole_of_lines_eq_append {t line : Text} {before after : List Text}
    (h : lines t = before ++ line :: after) : ∀ l ∈ before, Whole l := by
  intro l hl
  have hmem : l ∈ lines t := by
    rw [h]
    exact List.mem_append_left _ hl
  obtain ⟨row, hrow, rfl | rfl⟩ := exists_row_of_mem_lines hmem
  · obtain ⟨xs, ys, rfl⟩ := List.append_of_mem hl
    have hsplit : lines t = (xs ++ [l]) ++ (ys ++ line :: after) := by
      rw [h]
      simp
    obtain ⟨u, _, hu, _, hends⟩ := exists_of_lines_eq_append hsplit
    have hends : EndsLine l := by
      have hflat : (xs ++ [l]).flatten = xs.flatten ++ l := by simp
      refine EndsLine.of_append (hflat ▸ hends ?_)
      rintro rfl
      simp at hu
    rcases endsLine_iff.1 hends with hnil | hlast
    · exact absurd hnil (ne_nil_of_mem_lines hmem)
    · exact absurd (List.mem_of_getLast? hlast) hrow
  · exact ⟨row, hrow, rfl⟩

theorem lines_flatten_append {whole : List Text} (h : ∀ line ∈ whole, Whole line) (t : Text) :
    lines (whole.flatten ++ t) = whole ++ lines t := by
  induction whole with
  | nil => rfl
  | cons line whole ih =>
    rw [List.forall_mem_cons] at h
    obtain ⟨⟨row, hrow, rfl⟩, hwhole⟩ := h
    rw [List.cons_append, ← ih hwhole, ← lines_newline hrow]
    simp

theorem exists_whole (t : Text) :
    ∃ (whole : List Text) (row : Text), t = whole.flatten ++ row ∧
      (∀ line ∈ whole, Whole line) ∧ '\n' ∉ row := by
  induction t using rows_induction with
  | row r hr => exact ⟨[], r, rfl, List.forall_mem_nil _, hr⟩
  | newline r t hr ih =>
    obtain ⟨whole, row, rfl, hwhole, hrow⟩ := ih
    refine ⟨(r ++ ['\n']) :: whole, row, by simp, ?_, hrow⟩
    exact List.forall_mem_cons.2 ⟨⟨r, hr, rfl⟩, hwhole⟩

end Text

namespace Builtin

open Text (Whole isBlankChar isIndentChar isWordChar lines)

/-- Behind characters of the kind, the line has the mark of a decorator. -/
def IsDecorator (kind : Char → Bool) (line : Text) : Prop :=
  (line.dropWhile kind).head? = some '@'

instance (kind : Char → Bool) (line : Text) : Decidable (IsDecorator kind line) :=
  inferInstanceAs (Decidable (_ = _))

/-- Blank lines and then decorators. All decorators but the first are indented by spaces and tabs
only. -/
def Leads (before : List Text) : Prop :=
  ∃ blanks decorators, before = blanks ++ decorators ∧
    (∀ line ∈ blanks, Text.isBlank line = true) ∧
    (∀ line ∈ decorators, IsDecorator isBlankChar line) ∧
      ∀ line ∈ decorators.tail, IsDecorator isIndentChar line

/-- Behind its indentation, the keywords and a space the line goes on with the name. -/
def LineDeclares (line name : Text) : Prop :=
  Behind (fun t => ∃ indentation opener gap, t = indentation ++ (opener ++ gap) ∧
    (∀ c ∈ indentation, isIndentChar c = true) ∧ Opens opener ∧ gap.head? = some ' ' ∧
      ∀ c ∈ gap, isBlankChar c = true) .word line name

/-- The line has the keywords of a declaration behind nothing but blank characters. -/
def LineOpens (line : Text) : Prop :=
  ∃ indentation opener c rest, line = indentation ++ (opener ++ c :: rest) ∧
    (∀ d ∈ indentation, isBlankChar d = true) ∧ Opens opener ∧ isBlankChar c = true

section Decorator

variable {kind : Char → Bool}

theorem isDecorator_append {indentation : Text} (hmark : kind '@' = false)
    (hindent : ∀ c ∈ indentation, kind c = true) (rest : Text) :
    IsDecorator kind (indentation ++ '@' :: rest) := by
  have htail : ('@' :: rest).head?.any kind = false := hmark
  obtain ⟨_, hdrop⟩ := Text.takeWhile_leading hindent htail
  rw [IsDecorator, hdrop]
  rfl

theorem exists_of_isDecorator {line : Text} (hline : Whole line) (h : IsDecorator kind line) :
    ∃ indentation row, line = indentation ++ '@' :: (row ++ ['\n']) ∧
      (∀ c ∈ indentation, kind c = true) ∧ '\n' ∉ row := by
  obtain ⟨row, hrow, rfl⟩ := hline
  obtain ⟨indentation, tail, hsplit, hindent, htail⟩ := Text.exists_leading kind (row ++ ['\n'])
  obtain ⟨_, hdrop⟩ := Text.takeWhile_leading hindent htail
  rw [IsDecorator, hsplit, hdrop] at h
  obtain ⟨tail, rfl⟩ := List.head?_eq_some_iff.1 h
  rcases List.eq_nil_or_concat tail with rfl | ⟨inner, c, rfl⟩
  · cases (List.append_inj' hsplit rfl).2
  · rw [List.concat_eq_append, ← List.cons_append, ← List.append_assoc] at hsplit
    obtain ⟨rfl, hc⟩ := List.append_inj' hsplit rfl
    rw [List.singleton_inj] at hc
    subst hc
    exact ⟨indentation, inner, by simp, hindent, fun hmem => hrow (by simp [hmem])⟩

end Decorator

theorem whole_of_reads {line : Text} (h : decoratorLine.Reads line) : Whole line := by
  obtain ⟨indentation, row, rfl, hindent, hrow⟩ := reads_decoratorLine.1 h
  have hmarked : '\n' ∉ '@' :: row := List.not_mem_cons_of_ne_of_not_mem (by decide) hrow
  exact ⟨indentation ++ '@' :: row,
    List.not_mem_append (Text.newline_not_mem_indentation hindent) hmarked, by simp⟩

/-! ## The lead of a declaration -/

theorem lead_of_leads {before : List Text} (hwhole : ∀ line ∈ before, Whole line) (h : Leads before)
    {indentation : Text} (hindent : ∀ c ∈ indentation, isIndentChar c = true) :
    Lead (before.flatten ++ indentation) := by
  obtain ⟨blanks, decorators, rfl, hblanks, hmarked, hlater⟩ := h
  have hblank : ∀ c ∈ blanks.flatten, isBlankChar c = true := by
    intro c hc
    obtain ⟨line, hline, hc⟩ := List.mem_flatten.1 hc
    exact List.all_eq_true.1 (hblanks line hline) c hc
  cases decorators with
  | nil =>
    refine ⟨blanks.flatten ++ indentation, [], by simp, ?_, .nil⟩
    exact List.forall_mem_append.2 ⟨hblank, Text.blank_of_indentation hindent⟩
  | cons first later =>
    rw [List.forall_mem_append, List.forall_mem_cons] at hwhole
    obtain ⟨_, hfirst, hwhole⟩ := hwhole
    obtain ⟨loose, row, rfl, hloose, hrow⟩ :=
      exists_of_isDecorator hfirst (hmarked first List.mem_cons_self)
    have hreads : ∀ line ∈ ('@' :: (row ++ ['\n'])) :: later, decoratorLine.Reads line := by
      refine List.forall_mem_cons.2 ⟨?_, fun line hline => ?_⟩
      · exact reads_decoratorLine.2 ⟨[], row, rfl, List.forall_mem_nil _, hrow⟩
      · obtain ⟨space, row, rfl, hspace, hrow⟩ :=
          exists_of_isDecorator (hwhole line hline) (hlater line hline)
        exact reads_decoratorLine.2 ⟨space, row, rfl, hspace, hrow⟩
    obtain ⟨inner, decos, hflat, hinner, hdecos⟩ := exists_decorators hreads hindent
    refine ⟨blanks.flatten ++ (loose ++ inner), decos, ?_, ?_, hdecos⟩
    · rw [List.append_assoc, List.append_assoc, ← hflat]
      simp
    · exact List.forall_mem_append.2
        ⟨hblank, List.forall_mem_append.2 ⟨hloose, Text.blank_of_indentation hinner⟩⟩

theorem exists_leads {lead : Text} (h : Lead lead) :
    ∃ (before : List Text) (indentation : Text), lead = before.flatten ++ indentation ∧
      (∀ line ∈ before, Whole line) ∧ Leads before ∧ '\n' ∉ indentation ∧
        ∀ c ∈ indentation, isBlankChar c = true := by
  obtain ⟨blanks, decorators, rfl, hblanks, hdecorators⟩ := h
  obtain ⟨whole, loose, rfl, hwhole, hloose⟩ := Text.exists_whole blanks
  rw [List.forall_mem_append] at hblanks
  have hwholeBlank : ∀ line ∈ whole, Text.isBlank line = true := fun line hline =>
    List.all_eq_true.2 fun c hc => hblanks.1 c (List.mem_flatten.2 ⟨line, hline, hc⟩)
  obtain ⟨ys, last, hlines, hreads, hlast⟩ := hdecorators.exists_lines (List.forall_mem_nil _)
  rw [List.nil_append] at hlines
  have hlastRow := Text.newline_not_mem_indentation hlast
  have hlastBlank := Text.blank_of_indentation hlast
  cases ys with
  | nil =>
    refine ⟨whole, loose ++ last, by rw [hlines]; simp, hwhole, ?_, ?_, ?_⟩
    · exact ⟨whole, [], by simp, hwholeBlank, List.forall_mem_nil _, List.forall_mem_nil _⟩
    · exact List.not_mem_append hloose hlastRow
    · exact List.forall_mem_append.2 ⟨hblanks.2, hlastBlank⟩
  | cons first later =>
    rw [List.forall_mem_cons] at hreads
    obtain ⟨space, row, rfl, hspace, hrow⟩ := reads_decoratorLine.1 hreads.1
    -- The first decorator goes on with the line that the blank text ends in.
    have hspaces : ∀ c ∈ loose ++ space, isBlankChar c = true :=
      List.forall_mem_append.2 ⟨hblanks.2, Text.blank_of_indentation hspace⟩
    have hfirst : Whole (loose ++ space ++ '@' :: (row ++ ['\n'])) := by
      obtain ⟨inner, hinner, hline⟩ := whole_of_reads hreads.1
      refine ⟨loose ++ inner, List.not_mem_append hloose hinner, ?_⟩
      rw [List.append_assoc, hline, List.append_assoc]
    refine ⟨whole ++ (loose ++ space ++ '@' :: (row ++ ['\n'])) :: later, last, ?_, ?_, ?_,
      hlastRow, hlastBlank⟩
    · rw [hlines]
      simp
    · refine List.forall_mem_append.2 ⟨hwhole, List.forall_mem_cons.2 ⟨hfirst, fun line hline => ?_⟩⟩
      exact whole_of_reads (hreads.2 line hline)
    · have hlater : ∀ line ∈ later, ∃ space rest, line = space ++ '@' :: rest ∧
          ∀ c ∈ space, isIndentChar c = true := fun line hline => by
        obtain ⟨space, row, rfl, hspace, _⟩ := reads_decoratorLine.1 (hreads.2 line hline)
        exact ⟨space, _, rfl, hspace⟩
      refine ⟨whole, _, rfl, hwholeBlank, List.forall_mem_cons.2 ⟨?_, ?_⟩, ?_⟩
      · exact isDecorator_append rfl hspaces _
      · intro line hline
        obtain ⟨space, rest, rfl, hspace⟩ := hlater line hline
        exact isDecorator_append rfl (Text.blank_of_indentation hspace) _
      · intro line hline
        obtain ⟨space, rest, rfl, hspace⟩ := hlater line hline
        exact isDecorator_append rfl hspace _

theorem Leads.of_append {before more : List Text} (h : Leads (before ++ more)) : Leads before := by
  obtain ⟨blanks, decorators, hsplit, hblanks, hmarked, hlater⟩ := h
  rcases List.append_eq_append_iff.1 hsplit with ⟨rest, rfl, rfl⟩ | ⟨rest, rfl, rfl⟩
  · rw [List.forall_mem_append] at hblanks
    exact ⟨before, [], by simp, hblanks.1, List.forall_mem_nil _, List.forall_mem_nil _⟩
  · rw [List.forall_mem_append] at hmarked
    refine ⟨blanks, rest, rfl, hblanks, hmarked.1, fun line hline => hlater line ?_⟩
    cases rest with
    | nil => cases hline
    | cons first rest => exact List.mem_append_left _ hline

theorem Leads.isBlank_or_isDecorator {before : List Text} (h : Leads before) {line : Text}
    (hline : line ∈ before) : Text.isBlank line = true ∨ IsDecorator isBlankChar line := by
  obtain ⟨blanks, decorators, rfl, hblanks, hmarked, _⟩ := h
  exact (List.mem_append.1 hline).imp (hblanks line) (hmarked line)

section Lines

variable {code line name : Text} {before after : List Text}

theorem eq_nil_of_lines_eq (hlines : lines code = before ++ line :: after) {t : Text}
    (hline : line = t ++ name) (hne : name ≠ []) (hword : ∀ c ∈ name, isWordChar c = true) :
    after = [] := by
  cases after with
  | nil => rfl
  | cons next later =>
    have hsplit : lines code = (before ++ [line]) ++ next :: later := by
      rw [hlines]
      simp
    obtain ⟨row, _, hrow⟩ := Text.whole_of_lines_eq_append hsplit line (by simp)
    obtain ⟨inner, c, rfl⟩ := List.eq_nil_or_concat name |>.resolve_left hne
    rw [hline, List.concat_eq_append, ← List.append_assoc] at hrow
    obtain ⟨_, hc⟩ := List.append_inj' hrow rfl
    rw [List.singleton_inj] at hc
    subst hc
    exact absurd (hword '\n' (by simp)) (by decide)

theorem declares_of_lines (hlines : lines code = before ++ line :: after) (h : Leads before)
    (hline : LineDeclares line name) : Declares Opens code name := by
  obtain ⟨_, rest, rfl, ⟨indentation, opener, gap, rfl, hindent, hopener, hspace, hgap⟩, hne, hword,
    hrest⟩ := hline
  have hlead := lead_of_leads (Text.whole_of_lines_eq_append hlines) h hindent
  have hcode : code = (before.flatten ++ indentation) ++ (opener ++ gap) ++
      (name ++ (rest ++ after.flatten)) := by
    rw [← Text.flatten_lines code, hlines]
    simp
  -- A name at the end of the line is at the end of the code, so it does not go on either.
  have hrest : (rest ++ after.flatten).head?.any isWordChar = false := by
    cases rest with
    | nil =>
      rw [List.append_nil] at hlines
      rw [eq_nil_of_lines_eq hlines rfl hne hword]
      rfl
    | cons c rest => exact hrest
  have hgapNe : gap ≠ [] := by
    rintro rfl
    cases hspace
  exact ⟨_, _, hcode, ⟨_, opener, gap, rfl, hlead, hopener, hgapNe, hgap⟩, hne, hword, hrest⟩

theorem not_mem_newline_of_opens {opener : Text} (h : Opens opener) : '\n' ∉ opener := by
  rcases h with (rfl | ⟨gap, rfl, _, hgap⟩) | rfl
  · decide
  · have hgap := Text.newline_not_mem_indentation hgap
    exact List.not_mem_append (by decide) (List.not_mem_append hgap (by decide))
  · decide

theorem LineOpens.head?_dropWhile (h : LineOpens line) :
    (line.dropWhile isBlankChar).head? ∈ [some 'd', some 'a', some 'c'] := by
  obtain ⟨indentation, opener, c, rest, rfl, hindent, hopener, _⟩ := h
  obtain ⟨_, hdrop⟩ := Text.takeWhile_leading hindent (bare_of_opens hopener (c :: rest)).1
  rw [hdrop]
  rcases hopener with (rfl | ⟨_, rfl, _⟩) | rfl
  · exact List.mem_cons_self
  · exact List.mem_cons_of_mem _ List.mem_cons_self
  · exact List.mem_cons_of_mem _ (List.mem_cons_of_mem _ List.mem_cons_self)

/-- The keywords stand on one line, which another line can only be before. -/
theorem exists_lineOpens {lead opener gap : Text} (hlead : '\n' ∉ lead)
    (hblank : ∀ c ∈ lead, isBlankChar c = true) (hopener : Opens opener) (hne : gap ≠ [])
    (hgap : ∀ c ∈ gap, isBlankChar c = true) (t : Text) :
    ∃ first rest, lines (lead ++ (opener ++ (gap ++ t))) = first :: rest ∧ LineOpens first := by
  obtain ⟨c, gap, rfl⟩ := List.exists_cons_of_ne_nil hne
  have hrow : '\n' ∉ lead ++ opener :=
    List.not_mem_append hlead (not_mem_newline_of_opens hopener)
  have hopens (more : Text) : LineOpens (lead ++ (opener ++ c :: more)) :=
    ⟨lead, opener, c, more, rfl, hblank, hopener, hgap c List.mem_cons_self⟩
  by_cases hc : c = '\n'
  · subst hc
    refine ⟨_, lines (gap ++ t), ?_, hopens []⟩
    have hlines := Text.lines_newline hrow (gap ++ t)
    rwa [List.append_assoc, List.append_assoc] at hlines
  · have hrow : '\n' ∉ (lead ++ opener) ++ [c] :=
      List.not_mem_append hrow (by simpa using Ne.symm hc)
    obtain ⟨more, rest, hlines, _⟩ := Text.exists_lines_append_row hrow (by simp) (gap ++ t)
    refine ⟨_, rest, ?_, hopens more⟩
    simpa using hlines

/-- Where the code declares a name, all lines before a line are its lead, unless the keywords of the
declaration are among them. -/
theorem leads_of_declares (hlines : lines code = before ++ line :: after)
    (h : Declares Opens code name) (hbefore : ∀ earlier ∈ before, ¬ LineOpens earlier) :
    Leads before := by
  obtain ⟨_, rest, rfl, ⟨lead, opener, gap, rfl, hlead, hopener, hne, hgap⟩, _⟩ := h
  obtain ⟨whole, indentation, rfl, hwhole, hleads, hrow, hblank⟩ := exists_leads hlead
  obtain ⟨first, more, hfirst, hopens⟩ :=
    exists_lineOpens hrow hblank hopener hne hgap (name ++ rest)
  have hall : whole ++ first :: more = before ++ line :: after := by
    rw [← hlines, ← hfirst, ← Text.lines_flatten_append hwhole]
    simp
  -- The line cannot come behind the keywords, and what comes before them starts a lead.
  rcases List.append_eq_append_iff.1 hall with ⟨others, rfl, hothers⟩ | ⟨others, rfl, _⟩
  · cases others with
    | nil => simpa using hleads
    | cons other others =>
      obtain ⟨rfl, _⟩ := List.cons.inj hothers
      exact absurd hopens (hbefore first (by simp))
  · exact hleads.of_append

end Lines

end Builtin

end Marginalia
