import Marginalia.Regex.Pattern

/-! # Pattern expressions

An expression is what the text of a pattern says, in a normal form: sequences and alternatives are
flat, neighbouring characters form one literal, alternatives of single characters form one set, and
the parts that all alternatives start with stand before them. The functions `ofSet`, `inSequence`,
`inChoice` and `times` keep to this form. The last rule counts where such a part can match in
several ways: which of them is preferred is settled before the alternatives are tried.
-/

namespace Marginalia

inductive Expr where
  | empty
  | literal (t : Text)
  | set (s : CharSet)
  | look (l : Look)
  | repeated (greedy : Bool) (least : Nat) (most : Option Nat) (e : Expr)
  | capture (n : Nat) (e : Expr)
  | sequence (parts : List Expr)
  | choice (branches : List Expr)

namespace Expr

/-! ## Sequences -/

/-- A set of one character is a literal. -/
def ofSet (s : CharSet) : Expr :=
  match s.single? with
  | some c => literal [c]
  | none => set s

def parts : Expr → List Expr
  | empty => []
  | sequence es => es
  | e => [e]

/-- Puts a part before others, joined with a literal that comes first. -/
def prepend : Expr → List Expr → List Expr
  | literal t, literal u :: rest => literal (t ++ u) :: rest
  | e, rest => e :: rest

def inSequence (es : List Expr) : Expr :=
  match (es.flatMap parts).foldr prepend [] with
  | [] => empty
  | [e] => e
  | es => sequence es

/-! ## Alternatives -/

mutual

/-- Whether two expressions are the same, sets being so when they have the same members. -/
def same : Expr → Expr → Bool
  | empty, empty => true
  | literal t, literal u => t == u
  | set s, set t => s == t || s.ranges == t.ranges
  | look l, look l' => l == l'
  | repeated greedy least most e, repeated greedy' least' most' e' =>
    greedy == greedy' && least == least' && most == most' && e.same e'
  | capture n e, capture n' e' => n == n' && e.same e'
  | sequence es, sequence es' => allSame es es'
  | choice es, choice es' => allSame es es'
  | _, _ => false

def allSame : List Expr → List Expr → Bool
  | [], [] => true
  | e :: es, e' :: es' => e.same e' && allSame es es'
  | _, _ => false

end

def branches : Expr → List Expr
  | choice es => es
  | e => [e]

def char? : Expr → Option Char
  | literal [c] => some c
  | _ => none

def set? : Expr → Option CharSet
  | set s => some s
  | _ => none

/-- Alternatives that come down to one expression: none at all, just one, only characters, or only
sets. -/
def single? : List Expr → Option Expr
  | [] => some (set .empty)
  | [e] => some e
  | es =>
    match es.mapM char?, es.mapM set? with
    | some cs, _ => some (ofSet (.unionAll (cs.map .char)))
    | none, some ss => some (ofSet (.unionAll ss))
    | none, none => none

def commonHead : List Expr → List Expr → List Expr
  | e :: es, e' :: es' => if e.same e' then e :: commonHead es es' else []
  | _, _ => []

/-- The parts that all sequences start with; there are none if something else is among them. -/
def sharedParts : List Expr → List Expr
  | [sequence es] => es
  | sequence es :: rest => commonHead es (sharedParts rest)
  | _ => []

def inChoice : List Expr → Expr
  | [e] => e
  | es =>
    let es := es.flatMap branches
    match single? es, sharedParts es with
    | some e, _ => e
    | none, [] => choice es
    | none, shared =>
      let rests := (es.map fun e => inSequence (e.parts.drop shared.length)).flatMap branches
      inSequence (shared ++ [(single? rests).getD (choice rests)])

/-! ## Repetitions -/

mutual

/-- Whether the expression can match nothing but the empty text. -/
def isZeroWidth : Expr → Bool
  | empty => true
  | literal _ => false
  | set _ => false
  | look _ => true
  | repeated _ _ _ e => e.isZeroWidth
  | capture _ e => e.isZeroWidth
  | sequence es => areZeroWidth es
  | choice es => areZeroWidth es

def areZeroWidth : List Expr → Bool
  | [] => true
  | e :: es => e.isZeroWidth && areZeroWidth es

end

/-- A repetition in its simplest form: what has no width need not match more than once. -/
def times (e : Expr) (greedy : Bool) (least : Nat) (most : Option Nat) : Expr :=
  let least := if e.isZeroWidth then min least 1 else least
  let most := if e.isZeroWidth then some (min (most.getD 1) 1) else most
  if most = some 0 then empty
  else if least = 1 ∧ most = some 1 then e
  else repeated greedy least most e

/-! ## Patterns -/

mutual

/-- The pattern of an expression. -/
def toPattern : Expr → Pattern
  | empty => .empty
  | literal t => .sequence (t.map .char)
  | set s => .set s
  | look l => .look l
  | repeated greedy least most e => e.toPattern.repeated greedy least most
  | capture n e => .group n e.toPattern
  | sequence es => .sequence (piecePatterns es)
  | choice es => .choice (branchPatterns es)

/-- The patterns of the parts of a sequence, that of a literal character by character. -/
def piecePatterns : List Expr → List Pattern
  | [] => []
  | literal t :: es => t.map .char ++ piecePatterns es
  | e :: es => e.toPattern :: piecePatterns es

def branchPatterns : List Expr → List Pattern
  | [] => []
  | e :: es => e.toPattern :: branchPatterns es

end

end Expr

end Marginalia
