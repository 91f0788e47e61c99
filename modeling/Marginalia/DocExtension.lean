import Marginalia.Text.Basic

/-! # Extensions of the documentation markup

A language turns on a fixed set of extensions; what each of them does is up to the renderer.
-/

namespace Marginalia

inductive DocExtension where
  | lineConnector
  | definitionLists
  | todo
  | pydoc
  | autoLink
  | math
  | fencedCode
  | codeHilite
  | tables
  | haddock
  /-- References that match the pattern lead to the page of another namespace. -/
  | namespaceLinks (pattern : Text)
  | sectionLinks
  deriving DecidableEq

namespace DocExtension

def name : DocExtension → Text
  | lineConnector => "LineConnector"
  | definitionLists => "DefinitionLists"
  | todo => "Todo"
  | pydoc => "Pydoc"
  | autoLink => "AutoLink"
  | math => "Math"
  | fencedCode => "FencedCode"
  | codeHilite => "CodeHilite"
  | tables => "Tables"
  | haddock => "Haddock"
  | namespaceLinks pattern => "NamespaceLinks:" ++ pattern
  | sectionLinks => "SectionLinks"

/-- What every language starts with. -/
def standard : List DocExtension :=
  [lineConnector, definitionLists, todo, pydoc, autoLink, math, fencedCode, codeHilite, tables]

/-- The extension of a name. -/
def ofName? (t : Text) : Option DocExtension :=
  match Text.afterHead? "NamespaceLinks:" t with
  | some pattern => some (namespaceLinks pattern)
  | none => (standard ++ [haddock, sectionLinks]).find? (·.name == t)

end DocExtension

end Marginalia
