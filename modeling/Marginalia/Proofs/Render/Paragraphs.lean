import Marginalia.Proofs.Text.Leading
import Marginalia.Proofs.Text.Linewise
import Marginalia.Proofs.Text.Markup
import Marginalia.Render.Paragraph

/-! # Documentation in paragraphs

The plain renderer makes one paragraph of each maximal run of lines that are not blank, and the
paragraphs can be read back from the markup whatever the documentation holds
(`paragraphed_plainRender`). Lines are told by the newlines between them: the empty line behind a
final newline and a carriage return before a newline are blank, and make no difference.
-/

namespace Marginalia.DocRenderer

open Text (Runs isBlank trimEnd escapeMarkup unescapeMarkup)

/-! ## Runs of lines -/

def isInked (line : Text) : Bool := !isBlank line

/-- What the lines of a paragraph say. -/
def paragraphOf (run : List Text) : Text := Text.join "\n" (run.map trimEnd)

theorem paragraphsFrom_congr (current : List Text) {row row' : Text}
    (hblank : isBlank row = isBlank row') (htrim : trimEnd row = trimEnd row')
    {rest rest' : List Text}
    (h : ∀ current, paragraphsFrom current rest = paragraphsFrom current rest') :
    paragraphsFrom current (row :: rest) = paragraphsFrom current (row' :: rest') := by
  rw [paragraphsFrom, paragraphsFrom, hblank, htrim, h, h]

theorem paragraphsFrom_rows (current : List Text) (docs : Text) :
    paragraphsFrom current (Text.rows docs) = paragraphsFrom current (docs.splitOn '\n') := by
  induction docs using Text.rows_induction generalizing current with
  | row r hr =>
    rw [List.splitOn_eq_singleton hr]
    by_cases hne : r = []
    · subst hne
      cases current <;> rfl
    · rw [Text.rows, Text.lines_row hr hne, List.map_singleton]
      exact paragraphsFrom_congr current (Text.isBlank_lineContent r) (Text.trimEnd_lineContent r)
        fun _ => rfl
  | newline r t hr ih =>
    rw [List.splitOn_append_cons_self_of_not_mem hr, Text.rows, Text.lines_newline hr,
      List.map_cons, ← Text.rows]
    refine paragraphsFrom_congr current ?_ ?_ ih
    · rw [Text.isBlank_lineContent, Text.isBlank_concat_newline]
    · rw [Text.trimEnd_lineContent]
      exact Text.dropEndWhile_append rfl r

/-- The lines that are open belong to the first run. -/
theorem exists_runs_paragraphsFrom {current : List Text}
    (hcurrent : ∀ line ∈ current, isInked line = true) (rows : List Text) :
    ∃ runs, Runs isInked (current ++ rows) runs ∧
      paragraphsFrom (current.map trimEnd) rows = runs.map paragraphOf := by
  induction rows generalizing current with
  | nil =>
    by_cases hnil : current = []
    · subst hnil
      exact ⟨[], .nil, rfl⟩
    · refine ⟨[current], .run hnil hcurrent rfl .nil, ?_⟩
      rw [paragraphsFrom, if_neg (by simpa using hnil)]
      rfl
  | cons row rest ih =>
    cases hrow : isBlank row with
    | true =>
      obtain ⟨runs, hruns, hrest⟩ := ih (List.forall_mem_nil _)
      have hrowInked : isInked row = false := by rw [isInked, hrow, Bool.not_true]
      have hskip : Runs isInked (row :: rest) runs := .skip hrowInked hruns
      rw [paragraphsFrom, if_pos hrow]
      by_cases hnil : current = []
      · subst hnil
        exact ⟨runs, hskip, hrest⟩
      · refine ⟨current :: runs, .run hnil hcurrent hrowInked hskip, ?_⟩
        rw [if_neg (by simpa using hnil), List.map_cons]
        exact congrArg _ hrest
    | false =>
      have hopen : ∀ line ∈ current ++ [row], isInked line = true := by
        intro line hline
        rcases List.mem_append.1 hline with hline | hline
        · exact hcurrent line hline
        · rw [List.mem_singleton.1 hline, isInked, hrow, Bool.not_false]
      obtain ⟨runs, hruns, hrest⟩ := ih hopen
      refine ⟨runs, by rwa [List.append_cons], ?_⟩
      rw [paragraphsFrom, if_neg (by simp [hrow]), ← hrest, List.map_append]
      rfl

theorem exists_runs_paragraphs (docs : Text) :
    ∃ runs, Runs isInked (docs.splitOn '\n') runs ∧ paragraphs docs = runs.map paragraphOf := by
  rw [paragraphs, paragraphsFrom_rows]
  exact exists_runs_paragraphsFrom (List.forall_mem_nil _) (docs.splitOn '\n')

/-! ## Markup -/

def openTag : Text := "<p>"

def closeTag : Text := "</p>"

def paragraphTags : List Text := [openTag, closeTag]

def element (paragraph : Text) : Text := openTag ++ escapeMarkup paragraph ++ closeTag

theorem join_elements_cons (paragraph next : Text) (rest : List Text) :
    Text.join "\n" ((paragraph :: next :: rest).map element) =
      element paragraph ++ ("\n" ++ Text.join "\n" ((next :: rest).map element)) := by
  rw [List.map_cons, List.map_cons, Text.join, List.append_assoc]

theorem exists_join_elements (paragraph : Text) (rest : List Text) :
    ∃ t, Text.join "\n" ((paragraph :: rest).map element) = '<' :: t := by
  cases rest with
  | nil => exact ⟨_, rfl⟩
  | cons next rest => exact ⟨_, rfl⟩

theorem join_elements_eq_nil_iff {paragraphs : List Text} :
    Text.join "\n" (paragraphs.map element) = [] ↔ paragraphs = [] := by
  cases paragraphs with
  | nil => exact iff_of_true rfl rfl
  | cons paragraph rest =>
    obtain ⟨t, ht⟩ := exists_join_elements paragraph rest
    rw [ht]
    exact iff_of_false (List.cons_ne_nil _ _) (List.cons_ne_nil _ _)

theorem head?_of_mem_paragraphTags : ∀ tag ∈ paragraphTags, tag.head? = some '<' := by
  intro tag htag
  simp only [paragraphTags, List.mem_cons, List.not_mem_nil, or_false] at htag
  rcases htag with rfl | rfl <;> rfl

theorem delete_element (paragraph t : Text) :
    Text.delete paragraphTags (element paragraph ++ t) =
      escapeMarkup paragraph ++ Text.delete paragraphTags t := by
  have hopen (t : Text) :
      Text.delete paragraphTags (openTag ++ t) = Text.delete paragraphTags t :=
    Text.delete_append_of_find? (List.cons_ne_nil _ _) rfl
  have hclose (t : Text) :
      Text.delete paragraphTags (closeTag ++ t) = Text.delete paragraphTags t :=
    Text.delete_append_of_find? (List.cons_ne_nil _ _) rfl
  rw [element, List.append_assoc, List.append_assoc, hopen,
    Text.delete_append_of_not_mem head?_of_mem_paragraphTags (Text.not_mem_escapeMarkup _).1,
    hclose]

theorem delete_elements (paragraphs : List Text) :
    Text.delete paragraphTags (Text.join "\n" (paragraphs.map element)) =
      escapeMarkup (Text.join "\n" paragraphs) := by
  induction paragraphs with
  | nil => rfl
  | cons paragraph rest ih =>
    cases rest with
    | nil =>
      rw [List.map_singleton, Text.join, Text.join, ← List.append_nil (element paragraph),
        delete_element]
      exact List.append_nil _
    | cons next rest =>
      rw [join_elements_cons, delete_element, Text.join, Text.escapeMarkup_append,
        Text.escapeMarkup_append, ← ih, List.append_assoc]
      rfl

/-! ## Reading the paragraphs back -/

/-- Brackets cut the markup in pieces, and those that go on as an opening tag hold a paragraph. -/
def readParagraphs (markup : Text) : List Text :=
  ((markup.splitOn '<').filterMap (Text.afterHead? "p>")).map unescapeMarkup

theorem readParagraphs_append {piece : Text} (hpiece : '<' ∉ piece) (t : Text) :
    readParagraphs (piece ++ '<' :: t) =
      (Text.afterHead? "p>" piece).toList.map unescapeMarkup ++ readParagraphs t := by
  rw [readParagraphs, List.splitOn_append_cons_self_of_not_mem hpiece, List.filterMap_cons,
    readParagraphs]
  cases Text.afterHead? "p>" piece <;> rfl

theorem readParagraphs_element (paragraph t : Text) :
    readParagraphs (element paragraph ++ t) = paragraph :: readParagraphs ("/p>" ++ t) := by
  have hpiece : '<' ∉ "p>".toList ++ escapeMarkup paragraph := by
    rw [List.mem_append, not_or]
    exact ⟨by decide, (Text.not_mem_escapeMarkup paragraph).1⟩
  have hsplit : element paragraph ++ t =
      [] ++ '<' :: (("p>".toList ++ escapeMarkup paragraph) ++ '<' :: ("/p>" ++ t)) := by
    rw [element, List.append_assoc, List.append_assoc]
    exact congrArg ('<' :: ·) (List.append_assoc _ _ _).symm
  rw [hsplit, readParagraphs_append List.not_mem_nil, readParagraphs_append hpiece,
    Text.afterHead?_eq_some_iff.2 rfl]
  exact congrArg (· :: _) (Text.unescapeMarkup_escapeMarkup paragraph)

theorem readParagraphs_elements (paragraphs : List Text) :
    readParagraphs (Text.join "\n" (paragraphs.map element)) = paragraphs := by
  induction paragraphs with
  | nil => rfl
  | cons paragraph rest ih =>
    cases rest with
    | nil =>
      rw [List.map_singleton, Text.join, ← List.append_nil (element paragraph),
        readParagraphs_element]
      rfl
    | cons next rest =>
      obtain ⟨t, ht⟩ := exists_join_elements next rest
      have hclose : readParagraphs ("/p>\n" ++ '<' :: t) = readParagraphs t :=
        readParagraphs_append (by decide) t
      have hnext : readParagraphs ([] ++ '<' :: t) = readParagraphs t :=
        readParagraphs_append List.not_mem_nil t
      rw [join_elements_cons, readParagraphs_element, ht]
      exact congrArg (paragraph :: ·) (hclose.trans (hnext.symm.trans (ht ▸ ih)))

/-- `markup` shows `docs` in paragraphs, one for each of the maximal runs of its lines. -/
structure Paragraphed (docs markup : Text) (runs : List (List Text)) : Prop where
  isRuns : Runs isInked (docs.splitOn '\n') runs
  unique : ∀ other, Runs isInked (docs.splitOn '\n') other → other = runs
  markup_eq : markup = Text.join "\n" (runs.map fun run => element (paragraphOf run))
  decoded : ∀ run ∈ runs, unescapeMarkup (escapeMarkup (paragraphOf run)) = paragraphOf run
  outsideTags : Text.delete paragraphTags markup =
    escapeMarkup (Text.join "\n" (runs.map paragraphOf))
  noBrackets : '<' ∉ Text.delete paragraphTags markup ∧ '>' ∉ Text.delete paragraphTags markup
  readBack : readParagraphs markup = runs.map paragraphOf
  eq_nil_iff : markup = [] ↔ isBlank docs = true

/-- Whatever the documentation holds, it is shown in paragraphs. -/
theorem paragraphed_plainRender (docs : Text) (extensions : List DocExtension) :
    ∃ runs, Paragraphed docs (plain.render docs extensions) runs := by
  obtain ⟨runs, hruns, hparagraphs⟩ := exists_runs_paragraphs docs
  have hrender : plain.render docs extensions =
      Text.join "\n" ((runs.map paragraphOf).map element) := by
    rw [← hparagraphs]
    rfl
  have houtside : Text.delete paragraphTags (plain.render docs extensions) =
      escapeMarkup (Text.join "\n" (runs.map paragraphOf)) := by
    rw [hrender, delete_elements]
  refine ⟨runs, hruns, fun _ h => h.unique hruns, ?_, ?_, houtside, ?_, ?_, ?_⟩
  · rw [hrender, List.map_map]
    rfl
  · exact fun run _ => Text.unescapeMarkup_escapeMarkup _
  · rw [houtside]
    exact Text.not_mem_escapeMarkup _
  · rw [hrender, readParagraphs_elements]
  · rw [hrender, join_elements_eq_nil_iff, List.map_eq_nil_iff, hruns.eq_nil_iff,
      Text.isBlank_eq_all_splitOn, List.all_eq_true]
    simp only [isInked, Bool.not_eq_false']

example : plainRender "a \nb<c\r\n\t\n</p>" = "<p>a\nb&lt;c</p>\n<p>&lt;/p&gt;</p>" := by decide

end Marginalia.DocRenderer
