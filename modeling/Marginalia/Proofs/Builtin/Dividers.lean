import Marginalia.Proofs.Builtin.Source
import Marginalia.Proofs.Builtin.Stars
import Marginalia.Proofs.Render.Highlight

/-! # Dividers in the built-in languages

The sections of a text are highlighted one by one unless their code holds a divider. Line comments
leave none; a paired comment that is taken out after them may expose one.
-/

namespace Marginalia

open Text (Free Opens bareLine)

namespace InlineComment

variable {c : InlineComment}

theorem not_isIgnored_word (h : c.readsDivider = true) {ending : Text}
    (hending : ending = [] ∨ ending = ['\n']) :
    c.isIgnored (Divider.word ++ ending) = false := by
  rw [readsDivider, Bool.and_eq_true] at h
  have hword : Text.dropEndWhile (fun d => d == '\n' || d == '\r') (Divider.word ++ ending) =
      Divider.word := by
    rcases hending with rfl | rfl <;> rfl
  rw [isIgnored, hword]
  cases hignored : c.ignored with
  | none => rfl
  | some re =>
    rw [hignored, Option.all_some, Bool.and_eq_true, Option.isNone_iff_eq_none] at h
    have hfind : re.find Divider.word = none := by
      rw [Regex.find, Regex.findAt, Regex.findFrom_eq_leftmost h.2.1]
      exact h.2.2
    rw [Option.any_some, Regex.isMatch, hfind]
    rfl

theorem dropWhile_delimiter (h : c.readsDivider = true) (t : Text) :
    (c.delimiter ++ t).dropWhile Text.isIndentChar = c.delimiter ++ t := by
  rw [readsDivider, Bool.and_eq_true, Divider.isDividerLine_iff] at h
  obtain ⟨⟨hne, _, hchars⟩, _⟩ := h
  obtain ⟨d, rest, hdelimiter⟩ := List.exists_cons_of_ne_nil hne
  have hindent : ¬ Text.isIndentChar d = true := by
    intro hd
    have hblank := (hchars d (hdelimiter ▸ List.mem_cons_self)).2
    rw [Text.isBlankChar_of_isIndentChar hd] at hblank
    cases hblank
  rw [hdelimiter, List.cons_append, List.dropWhile_cons_of_neg hindent]

theorem exists_body_divider (h : c.readsDivider = true) {line : Text}
    (hline : bareLine line = c.delimiter ++ Divider.word) : ∃ body, c.body? line = some body := by
  obtain ⟨ending, hending, rfl⟩ : ∃ ending : Text, (ending = [] ∨ ending = ['\n']) ∧
      line = c.delimiter ++ (Divider.word ++ ending) := by
    rw [bareLine] at hline
    cases hbody : Text.beforeTail? "\n" line with
    | none =>
      rw [hbody, Option.getD_none] at hline
      exact ⟨[], .inl rfl, by rw [hline, List.append_nil]⟩
    | some body =>
      rw [hbody, Option.getD_some] at hline
      refine ⟨['\n'], .inr rfl, ?_⟩
      rw [Text.beforeTail?_eq_some_iff.1 hbody, hline, List.append_assoc]
      rfl
  refine ⟨Divider.word ++ ending, ?_⟩
  rw [body?, dropWhile_delimiter h, Text.afterHead?_eq_some_iff.2 rfl]
  simp only [not_isIgnored_word h hending, Bool.false_eq_true, if_false]

/-- Where line comments are taken out, no divider is left. -/
theorem Uncommented.free (h : c.readsDivider = true) {code : Text} (hcode : c.Uncommented code) :
    Free (c.delimiter ++ Divider.word) code := by
  intro line hline hbare
  obtain ⟨body, hbody⟩ := exists_body_divider h hbare
  rw [hcode line hline] at hbody
  cases hbody

end InlineComment

namespace Divider

theorem countMarks_eq_zero_iff {delimiter : Text} (h : isDividerLine (delimiter ++ word) = true)
    (ls : List Text) :
    countMarks delimiter ls = 0 ↔ ∀ line ∈ ls, bareLine line ≠ delimiter ++ word := by
  rw [countMarks, List.countP_eq_zero]
  refine forall₂_congr fun line _ => not_congr ?_
  rw [isMarked, Bool.and_eq_true, beq_iff_eq]
  refine ⟨And.right, fun hbare => ⟨?_, hbare⟩⟩
  rw [hbare]
  exact h

end Divider

namespace Section

theorem free_iff_codeLines {row : Text} (hrow : Text.isBlank row = false)
    (sections : List Section) :
    (∀ s ∈ sections, Free row s.code) ↔ ∀ line ∈ codeLines sections, bareLine line ≠ row := by
  rw [codeLines]
  simp only [List.forall_mem_flatMap]
  refine forall₂_congr fun s _ => ?_
  constructor
  · intro h line hline
    exact h line (List.mem_filter.1 hline).1
  · intro h line hline hbare
    refine h line (List.mem_filter.2 ⟨hline, ?_⟩) hbare
    rw [← Text.isBlank_bareLine, hbare, hrow]
    rfl

end Section

namespace Render

theorem ownDividers_eq_zero_iff {delimiter : Text}
    (h : Divider.isDividerLine (delimiter ++ Divider.word) = true) (sections : List Section) :
    ownDividers delimiter sections = 0 ↔
      ∀ s ∈ sections, Free (delimiter ++ Divider.word) s.code := by
  rw [ownDividers, Divider.countMarks_eq_zero_iff h]
  exact List.forall_mem_flatMap

end Render

namespace Language

/-- A paired comment in the code that line comments leave ends in the middle of a line, and the rest
of that line is a divider. -/
def ExposesDivider (l : Language) (t : Text) : Prop :=
  l.commentKinds = [.inlineComment, .blockComment] ∧
    ∃ c ∈ l.grammar.inline, ∃ s ∈ c.extract [.ofCode t],
      ∃ span ∈ BlockComment.spans l.grammar.blocks s.code,
        Opens (c.delimiter ++ Divider.word) (Text.after span.stop s.code)

end Language

namespace Builtin

open Render (highlightSections)

variable {l : Language}

theorem IsSource.free_uncomment_iff (h : IsSource l) {c : InlineComment}
    (hinline : l.grammar.inline = some c) (hc : c.readsDivider = true) (t : Text) :
    (∀ s ∈ l.uncomment t, Free (c.delimiter ++ Divider.word) s.code) ↔ ¬ l.ExposesDivider t := by
  have hinlinePass (sections : List Section) :
      Pass.extractInline.run l.grammar sections = c.extract sections := by
    simp only [Pass.extractInline, hinline]
  have hextract (sections : List Section) :
      ∀ s ∈ c.extract sections, Free (c.delimiter ++ Divider.word) s.code :=
    fun s hs => (InlineComment.uncommented_extract sections s hs).free hc
  have hrow : c.delimiter ++ Divider.word ≠ [] :=
    fun hnil => absurd (List.append_eq_nil_iff.1 hnil).2 (by decide)
  rw [h.uncomment_eq t, Language.ExposesDivider]
  have horder := h.commentKinds_mem
  simp only [commentOrders, List.mem_cons, List.not_mem_nil, or_false] at horder
  rcases horder with horder | horder | horder | horder
  · rw [horder]
    refine iff_of_true ?_ fun hexposed => absurd hexposed.1 (by decide)
    change ∀ s ∈ Pass.extractInline.run l.grammar _, _
    rw [hinlinePass]
    exact hextract _
  · rw [horder]
    refine iff_of_true ?_ fun hexposed => absurd hexposed.1 (by decide)
    change ∀ s ∈ Pass.extractInline.run l.grammar (Pass.extractBlocks.run l.grammar _), _
    rw [hinlinePass]
    exact hextract _
  -- Only here is code cut after the line comments are gone at places that need not start a line.
  · rw [← h.uncomment_eq t, h.uncomment_eq_extract horder hinline,
      BlockComment.free_extract_iff h.byLines.blocks (hextract _), horder]
    simp [hinline]
  · rw [horder]
    refine iff_of_true ?_ fun hexposed => absurd hexposed.1 (by decide)
    change ∀ s ∈ Pass.extractDocstrings.run l.grammar (Pass.extractInline.run l.grammar _), _
    rw [hinlinePass, Pass.extractDocstrings]
    simp only
    split
    · exact Docstring.free_extract hrow (hextract _)
    · exact hextract _

/-- The sections of a text are highlighted, one fragment each, exactly if no paired comment exposes
a divider. -/
theorem highlightSections_segment_iff (h : IsSource l) (t : Text) :
    (∃ fragments, highlightSections l (l.segment t) .plain = .ok fragments ∧
      fragments.length = (l.segment t).length) ↔ ¬ l.ExposesDivider t := by
  obtain ⟨c, hinline, hc⟩ := h.exists_inline
  have hdivider : Divider.isDividerLine (c.delimiter ++ Divider.word) = true :=
    (Bool.and_eq_true_iff.1 hc).1
  have hdelimiter : l.inlineDelimiter? = some c.delimiter := by
    rw [Language.inlineDelimiter?, hinline]
    rfl
  have hblank : Text.isBlank (c.delimiter ++ Divider.word) = false := by
    rw [Text.isBlank_append]
    exact Bool.and_false _
  have hfree : (∀ s ∈ l.segment t, Free (c.delimiter ++ Divider.word) s.code) ↔
      ¬ l.ExposesDivider t := by
    rw [Section.free_iff_codeLines hblank, (h.keepsLines_segment t).lines,
      ← Section.free_iff_codeLines hblank]
    exact h.free_uncomment_iff hinline hc t
  rw [← hfree, ← Render.ownDividers_eq_zero_iff hdivider]
  cases hsegment : l.segment t with
  | nil => exact iff_of_true ⟨[], rfl, rfl⟩ rfl
  | cons s rest =>
    rw [Render.highlightSections_marked hdelimiter hdivider]
    split
    · rename_i hzero
      refine iff_of_true ⟨_, rfl, ?_⟩ hzero
      rw [Divider.length_fragmentsFrom, List.length_map, List.length_cons]
    · rename_i hsome
      refine iff_of_false ?_ hsome
      rintro ⟨fragments, hok, _⟩
      cases hok

def exposing : Text := "/* x *///DIVIDER\n"

theorem highlightSections_segment_c :
    ∃ l, c.build = .ok l ∧ IsSource l ∧
      ¬ ∃ fragments, highlightSections l (l.segment exposing) .plain = .ok fragments ∧
        fragments.length = (l.segment exposing).length := by
  obtain ⟨l, b, hbuild, hl, hkinds, hinline, hblocks, hb⟩ :=
    exists_brace (o := c) (by simp [braceFamily])
  have hstarts : exposing = '/' :: (stars 0 ++ " x *///DIVIDER\n") := by decide
  obtain ⟨docs, hspans⟩ := @IsStarComment.exists_spans_eq_cons b " x *///DIVIDER\n" hb 0 7
    (by decide) (by decide)
  rw [← hstarts] at hspans
  have hexposes : l.ExposesDivider exposing := by
    refine ⟨hkinds, _, hinline, .ofCode exposing, List.mem_singleton.2 rfl, ⟨0, 7, docs⟩, ?_, ?_⟩
    · change _ ∈ BlockComment.spans l.grammar.blocks exposing
      rw [hblocks, hspans]
      exact List.mem_cons_self
    · exact ⟨"//DIVIDER\n", rfl, rfl⟩
  exact ⟨l, hbuild, hl, fun hok => (highlightSections_segment_iff hl exposing).1 hok hexposes⟩

end Builtin

end Marginalia
