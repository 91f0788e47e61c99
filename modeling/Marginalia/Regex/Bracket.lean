import Marginalia.Regex.Escape

/-! # Bracketed classes

A bracketed class is a union of characters, ranges, escapes and nested classes, or operations on
such unions, taken from left to right. Without regard to case, each operand is folded before an
operation and the whole class before its negation.
-/

namespace Marginalia.Regex

inductive SetOp where
  | inter
  | diff
  | symmDiff

def SetOp.apply : SetOp → CharSet → CharSet → CharSet
  | inter => .inter
  | diff => .diff
  | symmDiff => .symmDiff

def foldIf (caseless : Bool) (s : CharSet) : CharSet := if caseless then .fold s else s

/-- The union of the items of an operand, the last one first. -/
def unionOf (items : List (Nested CharSet)) : Nested CharSet :=
  ⟨.unionAll (items.reverse.map (·.value)), depthOf items⟩

/-- The operation still open to the left of an operand, applied to it. -/
def applyPending (caseless : Bool) (pending : Option (SetOp × Nested CharSet))
    (right : Nested CharSet) : Nested CharSet :=
  match pending with
  | none => right
  | some (op, left) =>
    ⟨op.apply (foldIf caseless left.value) (foldIf caseless right.value),
      max left.depth right.depth + 1⟩

/-- A class name such as `[:alpha:]`, or nothing if none stands here. -/
def readNamedClass : Read (Option CharSet) := do
  let before ← get
  if ← accept "[:" then
    let negated ← accept "^"
    let name ← takeWhile (· != ':')
    match ← accept ":]", CharSet.named? name with
    | true, some s => return some (if negated then .compl s else s)
    | _, _ =>
      set before
      return none
  else return none

/-- One character or class of a bracketed class, as an escape. -/
def readClassItem : Read Escape := do
  match ← take with
  | '\\' => readEscape
  | c => return .char c

/-- Whether the hyphen that comes next joins the ends of a range. -/
def hyphenJoins : Read Bool := do
  let s ← get
  match s.rest with
  | '-' :: rest =>
    match (if s.flags.spaced then dropSpace false rest else rest).head? with
    | some ']' => return false
    | some '-' => return false
    | _ => return true
  | _ => return false

/-- A range, a character or a class inside brackets. -/
def readClassRange : Read CharSet := do
  let low ← readClassItem
  skipSpace
  if ← hyphenJoins then
    drop 1
    skipSpace
    match low, ← readClassItem with
    | .char lo, .char hi => if lo ≤ hi then return .range lo hi else failure
    | _, _ => failure
  else
    match low with
    | .char c => return .char c
    | .set s => return s
    | .look _ => failure

/-- The hyphens at the start of a class, or a closing bracket if it comes first of all, stand for
themselves. -/
def readClassHead : Read (List (Nested CharSet)) := do
  let hyphens ← readHyphens (← get).rest.length
  if !hyphens.isEmpty then return hyphens
  if ← accept "]" then
    skipSpace
    return [⟨.char ']', 0⟩]
  else return []
where
  readHyphens : Nat → Read (List (Nested CharSet))
    | 0 => return []
    | fuel + 1 => do
      if ← accept "-" then
        skipSpace
        return ⟨.char '-', 0⟩ :: (← readHyphens fuel)
      else return []

/-- A class after its opening bracket, up to its end. -/
def readClass : Nat → Read (Nested CharSet)
  | 0 => failure
  | fuel + 1 => do
    skipSpace
    let negated ← accept "^"
    skipSpace
    let s ← readOperands fuel none (← readClassHead)
    return ⟨if negated then .compl s.value else s.value, s.depth + 1⟩
where
  readOperands : Nat → Option (SetOp × Nested CharSet) → List (Nested CharSet) →
      Read (Nested CharSet)
    | 0, _, _ => failure
    | fuel + 1, pending, items => do
      skipSpace
      let caseless := (← flags).caseless
      let read := applyPending caseless pending (unionOf items)
      if ← accept "]" then
        return ⟨foldIf caseless read.value, read.depth⟩
      else if ← accept "&&" then
        readOperands fuel (some (.inter, read)) []
      else if ← accept "--" then
        readOperands fuel (some (.diff, read)) []
      else if ← accept "~~" then
        readOperands fuel (some (.symmDiff, read)) []
      else if let some named ← readNamedClass then
        readOperands fuel pending (⟨named, 0⟩ :: items)
      else if ← accept "[" then
        readOperands fuel pending ((← readClass fuel) :: items)
      else
        readOperands fuel pending (⟨← readClassRange, 0⟩ :: items)

end Marginalia.Regex
