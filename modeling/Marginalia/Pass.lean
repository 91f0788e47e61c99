import Marginalia.Grammar
import Marginalia.Layout

/-! # Passes

A pass turns a list of sections into another one, by a grammar. Its name tells where other passes
go.
-/

namespace Marginalia

structure Pass where
  name : String
  run : Grammar → List Section → List Section

namespace Pass

def setLevels : Pass := ⟨"set_sections_levels", fun _ => Layout.setLevels⟩

def alignDocs : Pass := ⟨"strip_docs_indentation", fun _ => Layout.alignDocs⟩

def mergeUp : Pass := ⟨"merge_up", fun g => Layout.mergeUp g.scopeRules⟩

def mergeDown : Pass := ⟨"merge_down", fun _ => Layout.mergeDown⟩

def absorb : Pass := ⟨"absorb", fun _ => Layout.absorb⟩

def extractInline : Pass :=
  ⟨"parse_inline", fun g sections =>
    match g.inline with
    | none => sections
    | some comment => comment.extract sections⟩

def extractBlocks : Pass := ⟨"parse_block_comments", fun g => BlockComment.extract g.blocks⟩

def extractDocstrings : Pass :=
  ⟨"parse_docstrings", fun g sections =>
    if g.docstring then Docstring.extract sections else sections⟩

def stripDecoration : Pass :=
  ⟨"strip_comment_decoration", fun g sections =>
    if g.decoration then Decoration.stripAll sections else sections⟩

def splitByIndent : Pass := ⟨"split_by_scopes", fun g => Scope.splitByIndent g.scopeRules⟩

def splitByKeyword : Pass := ⟨"split_by_scopes", fun g => Scope.splitByKeyword g.scopeRules⟩

def attachDecorators : Pass :=
  ⟨"merge_decorators", fun g sections =>
    match g.decoratorMarker with
    | none => sections
    | some marker => Decorator.attachAll marker sections⟩

def addLinks : Pass := ⟨"add_links", fun g => LinkRule.annotate g.linkRules g.anchorHead⟩

end Pass

end Marginalia
