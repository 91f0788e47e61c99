import Marginalia.Toml.Lexical

/-! # Numbers of TOML

Integers have 64 bits. Floats are checked and kept as they are written; one that is too large for a
double is refused.
-/

namespace Marginalia.Toml

/-- Digits with single underscores between them, the first digit taken already. -/
def digitTail (ok : Char → Bool) : Text → Option (Text × Text)
  | [] => some ([], [])
  | '_' :: c :: t =>
    if ok c then (digitTail ok t).map fun (digits, rest) => (c :: digits, rest) else none
  | c :: t =>
    if ok c then (digitTail ok t).map fun (digits, rest) => (c :: digits, rest)
    else if c = '_' then none
    else some ([], c :: t)

/-- One digit or more, with underscores between them. -/
def readDigits (ok : Char → Bool) : Read Text := do
  let c ← take
  if !ok c then failure
  let some (digits, rest) := digitTail ok (← get) | failure
  set rest
  return c :: digits

/-- A sign: whether it is negative. -/
def readSign : Read Bool := do
  if ← accept "-" then return true
  else
    discard <| accept "+"
    return false

/-- Decimal digits without a leading zero. -/
def readDecimalDigits : Read Text := do
  if ← accept "0" then return ['0'] else readDigits Char.isDigit

def integer (n : Int) : Read Value :=
  if -9223372036854775808 ≤ n && n ≤ 9223372036854775807 then return .integer n else failure

def readInteger : Read Value := do
  if ← accept "0x" then
    integer (Text.valueIn 16 (← readDigits Text.isHexDigit))
  else if ← accept "0o" then
    integer (Text.valueIn 8 (← readDigits fun c => '0' ≤ c && c ≤ '7'))
  else if ← accept "0b" then
    integer (Text.valueIn 2 (← readDigits fun c => c == '0' || c == '1'))
  else
    let negative ← readSign
    let n : Int := Text.valueIn 10 (← readDecimalDigits)
    integer (if negative then -n else n)

/-- The least value that rounds to infinity as a double. -/
def overflowBound : Nat := Nat.pow 2 1024 - Nat.pow 2 970

/-- Whether `digits` times ten to the `exponent` is too large for a double. -/
def overflows (digits : Text) (exponent : Int) : Bool :=
  let n := Text.valueIn 10 digits
  let magnitude : Int := digits.length + exponent
  if n = 0 || magnitude ≤ 308 then false
  else if 0 ≤ exponent then 400 < exponent || overflowBound ≤ n * Nat.pow 10 exponent.toNat
  else overflowBound * Nat.pow 10 (-exponent).toNat ≤ n

def readExponent : Read Int := do
  let negative ← readSign
  let n : Int := Text.valueIn 10 (← readDigits Char.isDigit)
  return if negative then -n else n

def acceptExponent : Read Bool := do
  if ← accept "e" then return true else accept "E"

/-- What was read since `before` was left to read. -/
def since (before : Text) : Read Text :=
  return before.take (before.length - (← get).length)

/-- A float has a fraction or an exponent, or is one of the two names. -/
def readFloat : Read Value := do
  let before ← get
  let negative ← readSign
  if (← accept "inf") || (← accept "nan") then return .float (← since before)
  let whole ← readDecimalDigits
  let fraction ← if ← accept "." then some <$> readDigits Char.isDigit else pure none
  let exponent ← if ← acceptExponent then some <$> readExponent else pure none
  if fraction.isNone && exponent.isNone then failure
  let fraction := fraction.getD []
  if !negative && overflows (whole ++ fraction) (exponent.getD 0 - fraction.length) then failure
  return .float (← since before)

end Marginalia.Toml
