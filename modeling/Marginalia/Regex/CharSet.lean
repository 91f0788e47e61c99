import Marginalia.Regex.Ranges
import Marginalia.Text.Word

/-! # Sets of characters

A set stays symbolic: it is the expression that describes it, and membership evaluates that
expression at one character. Its ranges are listed only where their number counts.
-/

namespace Marginalia

inductive CharSet where
  | empty
  | char (c : Char)
  | range (lo hi : Char)
  | word
  | digit
  | blank
  | union (s t : CharSet)
  | inter (s t : CharSet)
  | diff (s t : CharSet)
  | symmDiff (s t : CharSet)
  | compl (s : CharSet)
  /-- The characters equal up to case to a member of the set. -/
  | fold (s : CharSet)
  deriving DecidableEq

namespace CharSet

def contains : CharSet → Char → Bool
  | empty, _ => false
  | char d, c => c == d
  | range lo hi, c => lo ≤ c && c ≤ hi
  | word, c => Text.isWordChar c
  | digit, c => Text.isDigit c
  | blank, c => Text.isBlankChar c
  | union s t, c => s.contains c || t.contains c
  | inter s t, c => s.contains c && t.contains c
  | diff s t, c => s.contains c && !t.contains c
  | symmDiff s t, c => s.contains c != t.contains c
  | compl s, c => !s.contains c
  | fold s, c => (Text.caseVariants c).any fun d => s.contains d

def any : CharSet := compl empty

/-- Every character but the newline. -/
def notNewline : CharSet := compl (char '\n')

/-- Spaces and tabs. -/
def indent : CharSet := union (char ' ') (char '\t')

def ofRanges (ranges : List (Char × Char)) : CharSet :=
  ranges.foldr (fun r s => union (range r.1 r.2) s) empty

@[simp] theorem contains_any (c : Char) : any.contains c = true := rfl

@[simp] theorem contains_notNewline (c : Char) : notNewline.contains c = (c != '\n') := rfl

@[simp] theorem contains_indent (c : Char) : indent.contains c = Text.isIndentChar c := rfl

theorem contains_ofRanges (ranges : List (Char × Char)) (c : Char) :
    (ofRanges ranges).contains c = ranges.any fun r => r.1 ≤ c && c ≤ r.2 := by
  induction ranges with
  | nil => rfl
  | cons r ranges ih =>
    rw [List.any_cons, ← ih]
    rfl

/-- The code points of the set as an orderly list of ranges. -/
def ranges : CharSet → List (Nat × Nat)
  | empty => []
  | char c => [(c.toNat, c.toNat)]
  | range lo hi => if lo ≤ hi then [(lo.toNat, hi.toNat)] else []
  | word => Text.wordRanges
  | digit => Text.digitRanges
  | blank => (9, 13) :: (32, 32) :: Text.blankRanges
  | union s t => Ranges.union s.ranges t.ranges
  | inter s t => Ranges.inter s.ranges t.ranges
  | diff s t => Ranges.diff s.ranges t.ranges
  | symmDiff s t => Ranges.union (Ranges.diff s.ranges t.ranges) (Ranges.diff t.ranges s.ranges)
  | compl s => Ranges.compl s.ranges
  | fold s => Ranges.fold s.ranges

def unionAll : List CharSet → CharSet
  | [] => empty
  | [s] => s
  | s :: t :: rest => union s (unionAll (t :: rest))

theorem contains_unionAll (ss : List CharSet) (c : Char) :
    (unionAll ss).contains c = ss.any (·.contains c) := by
  induction ss with
  | nil => rfl
  | cons s ss ih =>
    cases ss with
    | nil => simp [unionAll]
    | cons t rest => rw [List.any_cons, ← ih, unionAll, contains]

/-- The only member of a set, if it has just one and is not given by those that it leaves out. -/
def single? : CharSet → Option Char
  | char c => some c
  | range lo hi => if lo = hi then some lo else none
  | union s t => do
    let c ← s.single?
    if t.single? = some c then some c else none
  | fold s => do
    let c ← s.single?
    if (Text.caseVariants c).all (· == c) then some c else none
  | inter s t => singleOf? (inter s t).ranges
  | diff s t => singleOf? (diff s t).ranges
  | symmDiff s t => singleOf? (symmDiff s t).ranges
  | _ => none
where
  singleOf? : List (Nat × Nat) → Option Char
    | [(lo, hi)] => if lo = hi then some (Char.ofNat lo) else none
    | _ => none

/-- The named classes of ASCII characters. -/
def named? (name : Text) : Option CharSet :=
  match String.ofList name with
  | "alnum" => some (ofRanges [('0', '9'), ('A', 'Z'), ('a', 'z')])
  | "alpha" => some (ofRanges [('A', 'Z'), ('a', 'z')])
  | "ascii" => some (range '\x00' '\x7f')
  | "blank" => some (ofRanges [('\t', '\t'), (' ', ' ')])
  | "cntrl" => some (ofRanges [('\x00', '\x1f'), ('\x7f', '\x7f')])
  | "digit" => some (range '0' '9')
  | "graph" => some (range '!' '~')
  | "lower" => some (range 'a' 'z')
  | "print" => some (range ' ' '~')
  | "punct" => some (ofRanges [('!', '/'), (':', '@'), ('[', '\x60'), ('\x7b', '~')])
  | "space" => some (ofRanges [('\t', '\r'), (' ', ' ')])
  | "upper" => some (range 'A' 'Z')
  | "word" => some (ofRanges [('0', '9'), ('A', 'Z'), ('_', '_'), ('a', 'z')])
  | "xdigit" => some (ofRanges [('0', '9'), ('A', 'F'), ('a', 'f')])
  | _ => none

end CharSet

end Marginalia
