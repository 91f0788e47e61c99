import Marginalia.Pipeline

/-! # Capabilities

A capability brings some configuration and one pass, which goes to a fixed place of the base
pipeline.
-/

namespace Marginalia

inductive CapabilityKind where
  | inlineComment
  | blockComment
  | docstring
  | commentDecoration
  | indentBlock
  | braceBlock
  | decoratorMerge
  | keywordLink
  deriving DecidableEq

namespace CapabilityKind

def name : CapabilityKind → String
  | inlineComment => "inline_comment"
  | blockComment => "block_comment"
  | docstring => "docstring"
  | commentDecoration => "comment_decoration"
  | indentBlock => "indent_block"
  | braceBlock => "brace_block"
  | decoratorMerge => "decorator_merge"
  | keywordLink => "keyword_link"

def pass : CapabilityKind → Pass
  | inlineComment => .extractInline
  | blockComment => .extractBlocks
  | docstring => .extractDocstrings
  | commentDecoration => .stripDecoration
  | indentBlock => .splitByIndent
  | braceBlock => .splitByKeyword
  | decoratorMerge => .attachDecorators
  | keywordLink => .addLinks

/-- Comments are taken out before the base pipeline, which only sees documentation and code. -/
def placement : CapabilityKind → Placement
  | inlineComment => .before Pass.setLevels.name
  | blockComment => .before Pass.setLevels.name
  | docstring => .before Pass.setLevels.name
  | commentDecoration => .before Pass.alignDocs.name
  | indentBlock => .before Pass.mergeUp.name
  | braceBlock => .before Pass.mergeUp.name
  | decoratorMerge => .before Pass.absorb.name
  | keywordLink => .after Pass.absorb.name

end CapabilityKind

inductive Capability where
  | inlineComment (comment : InlineComment)
  | blockComment (comment : BlockComment)
  | docstring
  | commentDecoration
  | indentBlock
  | braceBlock
  | decoratorMerge (marker : Text)
  | keywordLink (rules : List LinkRule) (head : Text)

namespace Capability

def kind : Capability → CapabilityKind
  | inlineComment _ => .inlineComment
  | blockComment _ => .blockComment
  | docstring => .docstring
  | commentDecoration => .commentDecoration
  | indentBlock => .indentBlock
  | braceBlock => .braceBlock
  | decoratorMerge _ => .decoratorMerge
  | keywordLink _ _ => .keywordLink

/-- Adds the capability's configuration to a grammar. -/
def configure (c : Capability) (g : Grammar) : Grammar :=
  match c with
  | inlineComment comment => { g with inline := some comment }
  | blockComment comment => { g with blocks := g.blocks ++ [comment] }
  | docstring => { g with docstring := true }
  | commentDecoration => { g with decoration := true }
  | indentBlock => g
  | braceBlock => g
  | decoratorMerge marker => { g with decoratorMarker := some marker }
  | keywordLink rules head => { g with linkRules := g.linkRules ++ rules, anchorHead := head }

end Capability

end Marginalia
