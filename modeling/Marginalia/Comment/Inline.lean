import Marginalia.Error
import Marginalia.Section
import Marginalia.Text.Lines

/-! # Line comments

A line is a comment line when its first text after the indentation is the delimiter and the rest is
not ignored. Runs of comment lines become documentation.
-/

namespace Marginalia

structure InlineComment where
  delimiter : Text
  /-- Marks by what follows the delimiter the lines that stay code. -/
  ignored : Option Regex := none

namespace InlineComment

/-- The pattern that matches where one of the given patterns does, at the start of a text. -/
def ignoredSource (patterns : List Text) : Text :=
  "\\A(?:" ++ Text.join "|" (patterns.map fun p => "(?:" ++ p ++ ")") ++ ")"

/-- A line comment whose lines stay code where the rest starts with one of the patterns. -/
def ignoring (delimiter : Text) (patterns : List Text) : Except Error InlineComment := do
  if patterns.isEmpty then return { delimiter }
  else return { delimiter, ignored := some (← Regex.compile (ignoredSource patterns)) }

/-- Whether a line stays code, by the text after the delimiter. -/
def isIgnored (c : InlineComment) (rest : Text) : Bool :=
  c.ignored.any fun re => re.isMatch (Text.dropEndWhile (fun d => d == '\n' || d == '\r') rest)

/-- The documentation of a comment line: all that follows the delimiter. -/
def body? (c : InlineComment) (line : Text) : Option Text :=
  match Text.afterHead? c.delimiter (line.dropWhile Text.isIndentChar) with
  | none => none
  | some body => if c.isIgnored body then none else some body

/-- The spans of the lines from `offset` on, after the comment lines `run` just before them. -/
def spansFrom (c : InlineComment) (offset : Nat) (run : Option Span) : List Text → List Span
  | [] => run.toList
  | line :: rest =>
    let stop := offset + Text.size line
    match c.body? line with
    | none => run.toList ++ c.spansFrom stop none rest
    | some body =>
      let longer := match run with
        | none => ⟨offset, stop, body⟩
        | some span => { span with stop, docs := span.docs ++ body }
      c.spansFrom stop (some longer) rest

/-- The runs of consecutive comment lines. -/
def spans (c : InlineComment) (code : Text) : List Span := c.spansFrom 0 none (Text.lines code)

/-- Turns runs of comment lines into documentation. -/
def extract (c : InlineComment) (sections : List Section) : List Section :=
  sections.flatMap fun s => s.splitBySpans (c.spans s.code) true

end InlineComment

end Marginalia
