import Marginalia.Text.Basic

/-! # Blank characters

A character is blank when it has the White_Space property. Indentation is narrower: it is made of
spaces and tabs only.
-/

namespace Marginalia.Text

/-- Whether a code point lies in one of the given inclusive ranges. -/
def inRanges (ranges : List (Nat × Nat)) (n : Nat) : Bool :=
  ranges.any fun r => r.1 ≤ n && n ≤ r.2

def blankRanges : List (Nat × Nat) := [
  (0x85, 0x85), (0xA0, 0xA0), (0x1680, 0x1680), (0x2000, 0x200A), (0x2028, 0x2029),
  (0x202F, 0x202F), (0x205F, 0x205F), (0x3000, 0x3000)]

def isBlankChar (c : Char) : Bool :=
  if c.toNat < 128 then c == ' ' || (9 ≤ c.toNat && c.toNat ≤ 13) else inRanges blankRanges c.toNat

/-- Spaces and tabs. -/
def isIndentChar (c : Char) : Bool := c == ' ' || c == '\t'

theorem isBlankChar_of_isIndentChar {c : Char} (h : isIndentChar c = true) :
    isBlankChar c = true := by
  simp only [isIndentChar, Bool.or_eq_true, beq_iff_eq] at h
  rcases h with rfl | rfl <;> rfl

theorem isBlankChar_of_isWhitespace {c : Char} (h : c.isWhitespace = true) :
    isBlankChar c = true := by
  simp only [Char.isWhitespace, Bool.or_eq_true, decide_eq_true_eq] at h
  rcases h with ((rfl | rfl) | rfl) | rfl <;> rfl

/-- Whether every character is blank. -/
def isBlank (t : Text) : Bool := t.all isBlankChar

def trimStart (t : Text) : Text := t.dropWhile isBlankChar

def trimEnd (t : Text) : Text := dropEndWhile isBlankChar t

def trim (t : Text) : Text := trimEnd (trimStart t)

@[simp] theorem isBlank_nil : isBlank [] = true := rfl

@[simp] theorem isBlank_append (s t : Text) : isBlank (s ++ t) = (isBlank s && isBlank t) := by
  simp [isBlank]

theorem trimStart_eq_nil_iff {t : Text} : trimStart t = [] ↔ isBlank t = true := by
  induction t with
  | nil => simp [trimStart]
  | cons c t ih =>
    rw [trimStart, isBlank, List.dropWhile_cons, List.all_cons]
    cases h : isBlankChar c
    · simp
    · exact ih

end Marginalia.Text
