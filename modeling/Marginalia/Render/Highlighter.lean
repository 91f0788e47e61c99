import Marginalia.Render.Divider
import Marginalia.Text.Lines

/-! # Highlighters

A highlighter turns code into markup and may guess a language from a file's content. The plain one
escapes the code and marks nothing but dividers.
-/

namespace Marginalia

structure Highlighter where
  /-- The markup of some code in the language of the given name. -/
  highlight : Text → Text → Text
  guess? : Text → Option Text

namespace Highlighter

def plainLine (line : Text) : Text :=
  let (content, ending) := match Text.beforeTail? "\n" line with
    | some content => (content, "\n".toList)
    | none => (line, [])
  let escaped := Text.escapeMarkup content
  if Divider.isDividerLine content then "<span class=\"c1\">" ++ escaped ++ "</span>" ++ ending
  else escaped ++ ending

def plainHighlight (code : Text) : Text := ((Text.lines code).map plainLine).flatten

/-- Interpreters and the languages they run. -/
def interpreters : List (Text × Text) :=
  [("python", "python"), ("ruby", "ruby"), ("perl", "perl"), ("lua", "lua"), ("tclsh", "tcl"),
    ("escript", "erlang"), ("node", "javascript"), ("coffee", "coffeescript")]

/-- How files of some languages begin. -/
def beginnings : List (Text × Text) :=
  [("<?php", "php"), ("(ns ", "clojure"), ("#lang", "scheme"), ("\x7b-# LANGUAGE", "haskell")]

/-- The language of the interpreter in a first line that names one, else by how the text begins. -/
def plainGuess? (content : Text) : Option Text :=
  let content := Text.trimStart content
  match Text.rows content with
  | [] => none
  | first :: _ =>
    match Text.afterHead? "#!" first with
    | some command => (interpreters.find? fun i => Text.holds i.1 command).map (·.2)
    | none => (beginnings.find? fun b => Text.startsWith b.1 content).map (·.2)

def plain : Highlighter := ⟨fun code _ => plainHighlight code, plainGuess?⟩

end Highlighter

end Marginalia
