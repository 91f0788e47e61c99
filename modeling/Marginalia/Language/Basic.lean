import Marginalia.Capability
import Marginalia.DocExtension
import Marginalia.Text.Lower

/-! # Languages

A language knows the names and files that belong to it, the grammar of its comments and scopes, and
the pipeline that segments a text.
-/

namespace Marginalia

inductive LanguageKind where
  /-- Source code, which runs through the pipeline. -/
  | source
  /-- Prose: the whole text is documentation. -/
  | prose
  deriving DecidableEq

structure Language where
  name : Text
  aliases : List Text := []
  /-- File extensions, in lower case and without the dot. -/
  extensions : List Text := []
  /-- File names with a fixed output name. -/
  substitutes : Table Text := ∅
  kind : LanguageKind := .source
  grammar : Grammar := {}
  docExtensions : List DocExtension := DocExtension.standard
  pipeline : Pipeline := .base
  capabilities : List CapabilityKind := []

namespace Language

def new (name : Text) : Language := { name }

def prose (name : Text) : Language := { name, kind := .prose, pipeline := {} }

/-- An extension as it is kept: without leading dots and in lower case. -/
def normalizeExtension (ext : Text) : Text := Text.toLower (ext.dropWhile (· == '.'))

def addAlias (l : Language) (name : Text) : Language := { l with aliases := l.aliases ++ [name] }

def addExtension (l : Language) (ext : Text) : Language :=
  { l with extensions := l.extensions ++ [normalizeExtension ext] }

def addSubstitute (l : Language) (filename output : Text) : Language :=
  { l with substitutes := l.substitutes.insert filename output }

def addScopeRule (l : Language) (rule : ScopeRule) : Language :=
  { l with grammar := { l.grammar with scopeRules := l.grammar.scopeRules ++ [rule] } }

/-- Turns an extension of the markup on, once. -/
def addDocExtension (l : Language) (e : DocExtension) : Language :=
  if e ∈ l.docExtensions then l else { l with docExtensions := l.docExtensions ++ [e] }

/-- Takes over a capability's configuration. Anchors can be linked to once there are links. -/
def configure (l : Language) (c : Capability) : Language :=
  let l := { l with grammar := c.configure l.grammar }
  match c with
  | .keywordLink _ _ => l.addDocExtension .sectionLinks
  | _ => l

/-- Places the pass of a capability, unless one of the same kind is there already. -/
def install (l : Language) (kind : CapabilityKind) : Except Error Language :=
  if kind ∈ l.capabilities then .ok l
  else do
    let pipeline ← l.pipeline.place kind.placement kind.pass
    return { l with pipeline, capabilities := l.capabilities ++ [kind] }

/-- Configures a capability, then places its pass. -/
def addCapability (l : Language) (c : Capability) : Except Error Language :=
  (l.configure c).install c.kind

/-- As `addCapability`; where the pass finds no place, the language is left configured. -/
def tryCapability (l : Language) (c : Capability) : Language × Option Error :=
  match l.addCapability c with
  | .ok added => (added, none)
  | .error e => (l.configure c, some e)

def insertPass (l : Language) (placement : Placement) (pass : Pass) : Except Error Language := do
  return { l with pipeline := ← l.pipeline.place placement pass }

def removePass (l : Language) (name : String) : Except Error Language := do
  return { l with pipeline := ← l.pipeline.remove name }

def hasCapability (l : Language) (name : String) : Bool := l.capabilities.any (·.name == name)

def inlineDelimiter? (l : Language) : Option Text := l.grammar.inline.map (·.delimiter)

/-- Whether a name is the language's own or one of its aliases, up to ASCII case. -/
def answersTo (l : Language) (name : Text) : Bool :=
  Text.eqIgnoringCase l.name name || l.aliases.any fun a => Text.eqIgnoringCase a name

/-- The sections of a text. -/
def segment (l : Language) (t : Text) : List Section :=
  Section.keepFilled <|
    match l.kind with
    | .prose => [.ofDocs t]
    | .source => l.pipeline.run l.grammar [.ofCode t]

/-- As `segment`, with a record for each pass and one for the whole. -/
def segmentLogged (l : Language) (t : Text) : Logged (List Section) := do
  let sections ← match l.kind with
    | .prose => pure [.ofDocs t]
    | .source => l.pipeline.runLogged l.grammar [.ofCode t]
  let sections := Section.keepFilled sections
  Logged.note .debug (l.name ++ ": " ++ Text.ofNat sections.length ++ " sections")
  return sections

theorem value_segmentLogged (l : Language) (t : Text) :
    (l.segmentLogged t).value = l.segment t := by
  cases h : l.kind <;> simp [segmentLogged, segment, h, Pipeline.value_runLogged]

end Language

end Marginalia
