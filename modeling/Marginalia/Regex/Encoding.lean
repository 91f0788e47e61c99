import Marginalia.Regex.CharSet

/-! # Byte sequences of a set of characters

An automaton reads bytes. The code points of a range are encoded by a few sequences of byte ranges:
every choice of one byte from each range of a sequence is the encoding of one of the code points,
and each code point has its encoding in exactly one sequence.
-/

namespace Marginalia.Encoding

/-- One range of bytes for each byte of an encoding. -/
abbrev Sequence := List (Nat × Nat)

/-- The sequences for the values from `lo` to `hi`, written as a first byte counted from `lead` and
`k` continuation bytes of six bits each. -/
def spread : Nat → Nat → Nat → Nat → List Sequence
  | 0, lead, lo, hi => [[(lead + lo, lead + hi)]]
  | k + 1, lead, lo, hi =>
    let unit := Nat.pow 64 (k + 1)
    let starting (n : Nat) (rests : List Sequence) : List Sequence :=
      rests.map ((lead + n, lead + n) :: ·)
    let a := lo / unit
    let b := hi / unit
    if a = b then starting a (spread k 0x80 (lo % unit) (hi % unit))
    else
      let partialLow := lo % unit != 0
      let partialHigh := hi % unit != unit - 1
      let a' := if partialLow then a + 1 else a
      let b' := if partialHigh then b - 1 else b
      (if partialLow then starting a (spread k 0x80 (lo % unit) (unit - 1)) else []) ++
      (if a' ≤ b' then [(lead + a', lead + b') :: List.replicate (k + 1) (0x80, 0xBF)] else []) ++
      (if partialHigh then starting b (spread k 0x80 0 (hi % unit)) else [])

/-- The ranges of code points that are encoded alike, with their continuation bytes and the lead of
their first byte. The surrogates lie between them. -/
def lengths : List (Nat × Nat × Nat × Nat) := [
  (0, 0x7F, 0, 0), (0x80, 0x7FF, 1, 0xC0), (0x800, 0xD7FF, 2, 0xE0), (0xE000, 0xFFFF, 2, 0xE0),
  (0x10000, 0x10FFFF, 3, 0xF0)]

/-- The sequences of an orderly list of ranges, in ascending order. -/
def sequences (ranges : List (Nat × Nat)) : List Sequence :=
  ranges.flatMap fun r => lengths.flatMap fun (first, last, k, lead) =>
    let lo := max r.1 first
    let hi := min r.2 last
    if lo ≤ hi then spread k lead lo hi else []

/-- The first ranges of ascending sequences, each with the sequences that may follow it. -/
def branches : List Sequence → List ((Nat × Nat) × List Sequence)
  | [] => []
  | [] :: rest => branches rest
  | (b :: s) :: rest =>
    match branches rest with
    | [] => [(b, [s])]
    | (b', ss) :: more => if b = b' then (b, s :: ss) :: more else (b, [s]) :: (b', ss) :: more

/-- What may follow each proper start of the given sequences, which have at most `depth` parts. -/
def futures : Nat → List Sequence → List (List Sequence)
  | 0, _ => []
  | depth + 1, ss =>
    if ss.all (·.isEmpty) then []
    else ss :: (branches ss).flatMap fun b => futures depth b.2

end Marginalia.Encoding
