/-
# Contents of a config

What one document contributes to the model: its beans, aliases, components, imports,
problems and defaults.  Of two beans or aliases of one name the first stays.

Contents are written over what an import leads to: at first the name of the imported
config, later the config itself.
-/
import BeanWiring.Component
import BeanWiring.Config.ClassIndex
import BeanWiring.Config.Path
import BeanWiring.Document.Beans
import BeanWiring.Lookup.Context

namespace BeanWiring

/-- An import and the config that it pulled in, if it did. -/
structure Import (C : Type) where
  resource : String
  location : Location
  target : Option C := none

/-- What was read from one document. -/
structure Contents (C : Type) where
  beans : List Bean := []
  aliases : List BeanAlias := []
  components : List Component := []
  imports : List (Import C) := []
  problems : List Diagnostic := []
  defaults : DocumentDefaults := {}
  /-- The stamp of the document, if it could be read. -/
  stamp : Option Nat := none

namespace Contents

variable {C : Type}

/-- The configs that imports pulled in, in order. -/
def importedConfigs (c : Contents C) : List C :=
  c.imports.filterMap Import.target

/-- The bean of a name. -/
def bean? (c : Contents C) (name : String) : Option Bean :=
  Keyed.get? Bean.name name c.beans

/-- The alias of a name. -/
def aliasOf? (c : Contents C) (name : String) : Option BeanAlias :=
  Keyed.get? BeanAlias.name name c.aliases

/-- The index of all beans, those of components included, by class. -/
def classIndex (c : Contents C) : ClassIndex :=
  .ofBeans (c.beans ++ beansOfComponents c.components)

/-! ## Building -/

/-- Adds a bean of a resource, unless its name is taken. -/
def addBean (resource : String) (d : Declaration) (c : Contents C) : Contents C :=
  { c with beans := Keyed.putNew Bean.name (Bean.named resource d) c.beans }

/-- Adds an alias, unless its name is taken. -/
def addAlias (a : BeanAlias) (c : Contents C) : Contents C :=
  { c with aliases := Keyed.putNew BeanAlias.name a c.aliases }

/-- Adds a problem; imports with placeholders are expected and leave none. -/
def addProblem (p : Problem) (c : Contents C) : Contents C :=
  if Text.mentions Document.placeholderImport.toList p.message.toList then c
  else { c with problems := c.problems ++ [p.toDiagnostic] }

/-- What the reading of one config depends on besides its document. -/
structure Surroundings where
  /-- The name of the config. -/
  name : String
  /-- The configs importing this one, outermost first. -/
  chain : List String := []
  importsEnabled : Bool := true
  namespaces : Namespaces := {}
  /-- Whether a document of a name exists. -/
  documentExists : String → Bool

/-- Adds an import.  It pulls a config in if imports are enabled, the config is not being
imported already, and its document exists. -/
def addImport (s : Surroundings) (resource : String) (location : Location)
    (c : Contents String) : Contents String :=
  let target := resolveImport s.name resource
  let bare : Import String := ⟨resource, location, none⟩
  if !s.importsEnabled then
    { c with imports := c.imports ++ [bare] }
  else if target = s.name ∨ target ∈ s.chain then
    let c := c.addProblem
      ⟨.warning, "Import cycle detected for resource '" ++ target ++ "'", location⟩
    { c with imports := c.imports ++ [bare] }
  else if !s.documentExists target then
    let c := c.addProblem
      ⟨.error, "Failed to import bean definitions from relative location '" ++ resource ++ "'",
        location⟩
    { c with imports := c.imports ++ [bare] }
  else
    { c with imports := c.imports ++ [{ bare with target := some target }] }

/-- Takes in one event that does not end the document. -/
def addEvent (s : Surroundings) (c : Contents String) : Event → Contents String
  | .defaults defaults => { c with defaults }
  | .bean d => c.addBean s.name d
  | .aliasing name beanName location => c.addAlias ⟨name, beanName, location⟩
  | .component d =>
    match s.namespaces.interpret d with
    | .bean d => c.addBean s.name d
    | .component d => { c with components := c.components ++ [.ofDeclaration s.name d] }
    | .nothing => c
  | .importing resource location => c.addImport s resource location
  | .problem p => c.addProblem p
  | .fatal p => c.addProblem p

/-- Takes in events up to the first fatal one. -/
def addEvents (s : Surroundings) (c : Contents String) : List Event → Contents String
  | [] => c
  | .fatal p :: _ => c.addEvent s (.fatal p)
  | event :: rest => (c.addEvent s event).addEvents s rest

/-- The contents of a document with the given events. -/
def ofEvents (s : Surroundings) (stamp : Option Nat) (events : List Event) : Contents String :=
  addEvents s { stamp } events

/-- The contents of a config whose document cannot be read: the problem alone. -/
def ofError (s : Surroundings) (error : DocumentError) : Contents String :=
  addProblem ⟨.error, error.message, .unknown s.name⟩ {}

/-- Exchanges what imports lead to. -/
def withTargets {D : Type} (targets : List (Option D)) (c : Contents C) : Contents D :=
  { beans := c.beans
    aliases := c.aliases
    components := c.components
    imports := c.imports.zipWith (fun i t => ⟨i.resource, i.location, t⟩) targets
    problems := c.problems
    defaults := c.defaults
    stamp := c.stamp }

end Contents

/-! ## Readers -/

/-- How documents are turned into events. -/
inductive DocumentReader where
  /-- By their markup. -/
  | markup
  /-- By events recorded for each name. -/
  | scripted (scripts : List (String × List Event))

/-- The events of a document. -/
def DocumentReader.events (reader : DocumentReader) (document : Document) : List Event :=
  match reader with
  | markup => Document.events document.name document.content
  | scripted scripts =>
    match scripts.lookup document.name with
    | some events => events
    | none =>
      [.fatal ⟨.error, "No events recorded for '" ++ document.name ++ "'",
        .unknown document.name⟩]

/-- Reads the contents of a config from a source. -/
def readContents {σ : Type} [DocumentSource σ] (reader : DocumentReader) (source : σ)
    (s : Contents.Surroundings) : Contents String :=
  match DocumentSource.read source s.name with
  | .ok document => .ofEvents s (some document.stamp) (reader.events document)
  | .error error => .ofError s error

end BeanWiring
