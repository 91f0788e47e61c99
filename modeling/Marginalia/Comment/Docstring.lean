import Marginalia.Error
import Marginalia.Section

/-! # Docstrings

A docstring is a double-quoted literal that starts a line, after indentation, and ends one. Inside
it a backslash makes the next character stand for itself.
-/

namespace Marginalia.Docstring

def source : Text := "(?m)^([ \\t]*\"(?:[^\"\\\\]|\\\\(?s:.))*)\"[ \\t]*$"

/-- A character of a literal: any but the quote and the backslash, or any after a backslash. -/
def quoted : Pattern :=
  .alt (.set (.compl (.union (.char '"') (.char '\\')))) (.seq (.char '\\') (.set .any))

def pattern : Pattern :=
  .sequence [
    .look .lineStart,
    .group 1 (.sequence [.indent, .char '"', .star true quoted]),
    .char '"', .indent, .look .lineEnd]

def regex : Regex := ⟨source, pattern, []⟩

example : Regex.compile? source = some regex := by decide +kernel

/-- Resolves backslashes; one at the very end stands for nothing. -/
def unescape : Text → Text
  | [] => []
  | '\\' :: [] => []
  | '\\' :: c :: t => c :: unescape t
  | c :: t => c :: unescape t

/-- Takes the first quote out of a text. -/
def dropQuote : Text → Text
  | [] => []
  | c :: t => if c = '"' then t else c :: dropQuote t

/-- The documentation of a literal without its closing quote. -/
def unquote (raw : Text) : Text := unescape (dropQuote (raw.dropWhile (· == '\n')))

def unquoteSection (s : Section) : Section :=
  if s.stripped && s.code.isEmpty then { s with docs := unquote s.docs } else s

/-- Turns docstrings into documentation. -/
def extract (sections : List Section) : List Section :=
  sections.flatMap fun s =>
    match s.splitByPattern regex true with
    | [] => []
    | first :: parts => first :: parts.map unquoteSection

end Marginalia.Docstring
