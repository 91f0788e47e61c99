import Marginalia.Language.Basic

/-! # Outlines of languages

An outline describes a language by plain texts; building it compiles the patterns and adds the parts
in a fixed order: names and files, scope rules, capabilities, markup extensions, and last the passes
that the language does without.
-/

namespace Marginalia

/-- A paired comment by the patterns of its delimiters. -/
structure Delimiters where
  start : Text
  stop : Text
  firstColumn : Bool := false
  ignored : Option (Text × Text) := none

def Delimiters.compile (d : Delimiters) : Except Error BlockComment := do
  let comment ←
    if d.firstColumn then BlockComment.compileFirstColumn d.start d.stop
    else BlockComment.compile d.start d.stop
  match d.ignored with
  | none => return comment
  | some (start, stop) => return comment.ignoring start stop

/-- A capability before its patterns are compiled. -/
inductive Feature where
  | inline (delimiter : Text) (ignored : List Text)
  | block (delimiters : Delimiters)
  | docstring
  | decoration
  | indent
  | brace
  | decorators (marker : Text)
  | links (rules : List (Text × Text)) (head : Text)

def Feature.compile : Feature → Except Error Capability
  | inline delimiter ignored => return .inlineComment (← InlineComment.ignoring delimiter ignored)
  | block delimiters => return .blockComment (← delimiters.compile)
  | docstring => return .docstring
  | decoration => return .commentDecoration
  | indent => return .indentBlock
  | brace => return .braceBlock
  | decorators marker => return .decoratorMerge marker
  | links rules head => do
    return .keywordLink (← rules.mapM fun rule => LinkRule.compile rule.1 rule.2) head

/-- The template of anchors that a group called `name` captures. -/
def nameTemplate : Text := "$\x7bname\x7d"

structure Outline where
  name : Text
  kind : LanguageKind := .source
  aliases : List Text := []
  extensions : List Text := []
  substitutes : List (Text × Text) := []
  scopes : List Text := []
  features : List Feature := []
  docExtensions : List DocExtension := []
  removed : List String := []

namespace Outline

/-- The language with its names and files, before any pattern. -/
def blank (o : Outline) : Language :=
  let l := match o.kind with
    | .source => Language.new o.name
    | .prose => Language.prose o.name
  let l := o.aliases.foldl .addAlias l
  let l := o.extensions.foldl .addExtension l
  o.substitutes.foldl (fun l s => l.addSubstitute s.1 s.2) l

def build (o : Outline) : Except Error Language := do
  let rules ← o.scopes.mapM ScopeRule.compile
  let l := rules.foldl .addScopeRule o.blank
  let l ← o.features.foldlM (fun l feature => do l.addCapability (← feature.compile)) l
  let l := o.docExtensions.foldl .addDocExtension l
  o.removed.foldlM Language.removePass l

end Outline

end Marginalia
