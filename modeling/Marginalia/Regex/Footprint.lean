import Marginalia.Regex.Encoding
import Marginalia.Regex.Expr

/-! # The size of a pattern's automaton

A pattern has two automata over bytes, one that reads forwards and one that reads backwards. A state
takes 32 bytes of memory, an edge of a state that branches on bytes takes 8, and one of a state that
branches freely takes 4. Patterns whose automata are too large are refused.
-/

namespace Marginalia

/-- The direction in which an automaton reads. -/
inductive Direction where
  | forward
  | backward
  deriving DecidableEq

namespace Footprint

def state : Nat := 32

/-- A state with `n` edges, each for a range of bytes. -/
def switch (n : Nat) : Nat := state + 8 * n

/-- A state with `n` edges that read nothing. -/
def fork (n : Nat) : Nat := state + 4 * n

def total (sizes : List Nat) : Nat := sizes.foldl (· + ·) 0

/-- A set of characters. Forwards, states with the same future are one; backwards, sequences share
states only as far as they start alike. -/
def ofRanges (dir : Direction) (ranges : List (Nat × Nat)) : Nat :=
  if ranges.all (·.2 < 128) then state + switch ranges.length
  else
    let ss := Encoding.sequences ranges
    let futures := Encoding.futures 4 ss
    match dir with
    | .forward =>
      state + total (futures.eraseDups.map fun f => switch (Encoding.branches f).length)
    | .backward =>
      fork ss.length + state + total (futures.map fun f => state * (Encoding.branches f).length)

/-! ## Words

Alternatives that are all literals share their starts. A word that ends in the middle of others cuts
them into those preferred to it and those that come after it.
-/

abbrev Word := List UInt8

/-- The words between those that end here. -/
def runs : List Word → List (List Word)
  | [] => [[]]
  | [] :: rest => [] :: runs rest
  | w :: rest =>
    match runs rest with
    | [] => [[w]]
    | r :: rs => (w :: r) :: rs

/-- The first letters of words, each with what may follow it. -/
def firsts : List Word → List (UInt8 × List Word)
  | [] => []
  | [] :: rest => firsts rest
  | (b :: w) :: rest =>
    let more := firsts rest
    match more.lookup b with
    | none => (b, [w]) :: more
    | some ws => (b, w :: ws) :: more.filter (·.1 != b)

/-- The states for words of at most `depth` letters. -/
def ofWords : Nat → List Word → Nat
  | 0, _ => 0
  | depth + 1, ws =>
    let ws := if ws.head? = some [] then [] :: ws.dropWhile (·.isEmpty) else ws
    let rs := runs ws
    let edges := rs.map firsts
    fork ((edges.countP fun es => !es.isEmpty) + (rs.length - 1)) +
    total (edges.map fun es =>
      (match es with
      | [] => 0
      | [_] => state
      | es => switch es.length) +
      total (es.map fun e => if e.2.all (·.isEmpty) then 0 else ofWords depth e.2))

def word (dir : Direction) (t : Text) : Word :=
  let bytes := t.flatMap String.utf8EncodeChar
  if dir = .forward then bytes else bytes.reverse

def ofLiterals (dir : Direction) (ts : List Text) : Nat :=
  let words := ts.map (word dir)
  state + ofWords ((words.map List.length).foldl max 0 + 1) words

end Footprint

open Footprint

namespace Expr

mutual

/-- The least number of bytes in a match, if there can be a match; counted only as far as none or
some. -/
def minSize? : Expr → Option Nat
  | empty => some 0
  | literal t => some t.length
  | set s => if s.ranges.isEmpty then none else some 1
  | look _ => some 0
  | repeated _ least _ e => e.minSize?.map (least * ·)
  | capture _ e => e.minSize?
  | sequence es => minSizeSum? es
  | choice es => minSizeLeast? es

def minSizeSum? : List Expr → Option Nat
  | [] => some 0
  | e :: es => do return (← e.minSize?) + (← minSizeSum? es)

def minSizeLeast? : List Expr → Option Nat
  | [] => none
  | [e] => e.minSize?
  | e :: es => do return min (← e.minSize?) (← minSizeLeast? es)

end

def literal? : Expr → Option Text
  | literal t => some t
  | _ => none

/-- The size of a repetition, given that of its body and whether the body always reads something. -/
def repeatedSize (least : Nat) (most : Option Nat) (reads : Bool) (body : Nat) : Nat :=
  match least, most with
  | 0, none => if reads then fork 2 + body else body + fork 2 + fork 2 + state
  | n, none => n * body + fork 2
  | 0, some 1 => fork 2 + body + state
  | 0, some m => state + state + m * (fork 2 + body)
  | n, some m => if n = m then n * body else n * body + state + (m - n) * (fork 2 + body)

mutual

/-- The size of the part of an automaton that is built from an expression. -/
def size (dir : Direction) : Expr → Nat
  | empty => state
  | literal t => state * Text.size t
  | set s => ofRanges dir s.ranges
  | look _ => state
  | repeated _ least most e =>
    repeatedSize least most (e.minSize?.any (0 < ·)) (e.size dir)
  | capture _ e => if dir = .forward then state + e.size dir + state else e.size dir
  | sequence es => sizeSum dir es
  | choice es =>
    match es.mapM literal? with
    | some ts => ofLiterals dir ts
    | none => fork es.length + sizeSum dir es + state

def sizeSum (dir : Direction) : List Expr → Nat
  | [] => 0
  | e :: es => e.size dir + sizeSum dir es

end

mutual

/-- Whether every match starts where `l` holds. -/
def startsWith (l : Look) : Expr → Bool
  | look l' => l' == l
  | repeated _ least _ e => least != 0 && e.startsWith l
  | capture _ e => e.startsWith l
  | sequence es => firstStartsWith l es
  | choice es => allStartWith l es
  | _ => false

def firstStartsWith (l : Look) : List Expr → Bool
  | [] => false
  | e :: es => e.startsWith l || e.isZeroWidth && firstStartsWith l es

def allStartWith (l : Look) : List Expr → Bool
  | [] => true
  | e :: es => e.startsWith l && allStartWith l es

end

mutual

/-- Whether every match ends where `l` holds. -/
def endsWith (l : Look) : Expr → Bool
  | look l' => l' == l
  | repeated _ least _ e => least != 0 && e.endsWith l
  | capture _ e => e.endsWith l
  | sequence es => lastEndsWith l es
  | choice es => allEndWith l es
  | _ => false

def lastEndsWith (l : Look) : List Expr → Bool
  | [] => false
  | e :: es => lastEndsWith l es || areZeroWidth es && e.endsWith l

def allEndWith (l : Look) : List Expr → Bool
  | [] => true
  | e :: es => e.endsWith l && allEndWith l es

end

/-- The size of the whole automaton. Unless every match is tied to the end of the text where it
starts to read, it first passes over any bytes; forwards, it notes where the match lies. -/
def automatonSize (dir : Direction) (e : Expr) : Nat :=
  let tied :=
    match dir with
    | .forward => e.startsWith .textStart
    | .backward => e.endsWith .textEnd
  let passing := if tied then state else fork 2 + state + switch 1
  let noting := if dir = .forward then state + state else 0
  passing + noting + e.size dir + state

/-- No automaton may take more memory than this. -/
def automatonLimit : Nat := 10485760

end Expr

/-- More than any automaton takes for the set. -/
def CharSet.sizeBound : CharSet → Nat
  | empty => 1024
  | char _ => 1024
  | range _ _ => 4096
  | word => 65536
  | digit => 16384
  | blank => 4096
  | union s t => s.sizeBound + t.sizeBound
  | inter s t => 4 * (s.sizeBound + t.sizeBound)
  | diff s t => 4 * (s.sizeBound + t.sizeBound)
  | symmDiff s t => 4 * (s.sizeBound + t.sizeBound)
  | compl s => 4 * s.sizeBound
  | fold (char _) => 4096
  | fold s => s.sizeBound + 262144

namespace Expr

mutual

/-- More than any automaton takes for the expression. -/
def sizeBound : Expr → Nat
  | empty => 64
  | literal t => 1024 * t.length
  | set s => s.sizeBound
  | look _ => 64
  | repeated _ least most e => (most.getD least).max 1 * (e.sizeBound + 64) + 128
  | capture _ e => e.sizeBound + 128
  | sequence es => sizeBoundSum es
  | choice es => sizeBoundSum es + 128 * es.length

def sizeBoundSum : List Expr → Nat
  | [] => 0
  | e :: es => e.sizeBound + sizeBoundSum es

end

/-- Whether both automata are small enough. Most expressions are too small to need a count. -/
def fits (e : Expr) : Bool :=
  e.sizeBound + 1024 ≤ automatonLimit ||
  (e.automatonSize .forward ≤ automatonLimit && e.automatonSize .backward ≤ automatonLimit)

end Expr

end Marginalia
