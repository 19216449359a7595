/-
# Workspaces

Everything that is kept between questions: the source of documents, all configs and
config sets that were ever made, the projects they belong to, and the model, which is
the collection of projects that are known to each other.

Configs, config sets and projects are known by ids, because several of them can have
one name: a config that was removed and added again is another config.  Nothing is
ever given a used id again.

Main statements: `config_updateConfig` and `set_updateSet`, that a change to one config
or set leaves all others as they are.
-/
import BeanWiring.Config.Merged
import BeanWiring.Project.Error
import BeanWiring.Project.Settings

namespace BeanWiring

/-! ## Ids -/

/-- Identifies a config. -/
structure ConfigId where
  index : Nat
deriving DecidableEq

/-- Identifies a config set. -/
structure SetId where
  index : Nat
deriving DecidableEq

/-- Identifies a project. -/
structure ProjectId where
  index : Nat
deriving DecidableEq

/-- Identifies a listener of the model. -/
structure ListenerId where
  index : Nat
deriving DecidableEq

/-! ## What is known about each -/

/-- How a config came to be. -/
inductive ConfigOrigin where
  | manual
  | detected (locator : String)
  | imported (importer : String)
deriving DecidableEq

/-- Whether a config was made by an import. -/
def ConfigOrigin.isImported : ConfigOrigin → Bool
  | imported _ => true
  | _ => false

/-- A config. -/
structure ConfigCell where
  name : String := ""
  origin : ConfigOrigin := .manual
  project : ProjectId := ⟨0⟩
  /-- The configs importing this one, outermost first. -/
  chain : List String := []
  /-- What its document says, once it has been read. -/
  contents : Option (Contents ConfigId) := none
  /-- The sets that were merged from this config. -/
  dependents : List SetId := []

/-- A config set. -/
structure SetCell where
  name : String := ""
  project : ProjectId := ⟨0⟩
  settings : SetSettings := {}
  /-- The namespace that the members form, once they have been merged. -/
  merged : Option (MergedSet ConfigId) := none

/-- A project. -/
structure ProjectCell where
  name : String := ""
  reader : DocumentReader := .markup
  namespaces : Namespaces := {}
  settings : ProjectSettings := {}
  configs : List (String × ConfigId) := []
  sets : List (String × SetId) := []
  /-- The names of the sets that each locator contributed. -/
  locatedSets : List (String × List String) := []
  /-- Whether the project has been in the model, and sees the projects there. -/
  isAttached : Bool := false

/-- Something that happened in the model. -/
inductive ModelEvent where
  | opened
  | closed
  | projectAdded (project : String)
  | projectRemoved (project : String)
  | configReset (project config : String)
  | setReset (project set : String)
deriving DecidableEq

/-- An event as a word for its kind, followed by the names that it is about. -/
def ModelEvent.words : ModelEvent → List String
  | opened => ["model_opened"]
  | closed => ["model_closed"]
  | projectAdded project => ["project_added", project]
  | projectRemoved project => ["project_removed", project]
  | configReset project config => ["config_reset", project, config]
  | setReset project set => ["config_set_reset", project, set]

/-- The projects that are known to each other, and who listens to what happens to them. -/
structure Model where
  isOpen : Bool := false
  projects : List (String × ProjectId) := []
  listeners : List ListenerId := []
  /-- How many listeners there have been. -/
  subscriptions : Nat := 0
  /-- What was told to whom, in order. -/
  deliveries : List (ListenerId × ModelEvent) := []

/-- All that is kept between questions. -/
structure Workspace (σ : Type) where
  source : σ
  configs : Array ConfigCell := #[]
  sets : Array SetCell := #[]
  projects : Array ProjectCell := #[]
  /-- The projects in use, by name. -/
  inUse : List (String × ProjectId) := []
  model : Model := {}

namespace Workspace

variable {σ : Type}

/-! ## Looking up ids -/

/-- The config of an id. -/
def config (ws : Workspace σ) (id : ConfigId) : ConfigCell :=
  ws.configs[id.index]?.getD {}

/-- The config set of an id. -/
def set (ws : Workspace σ) (id : SetId) : SetCell :=
  ws.sets[id.index]?.getD {}

/-- The project of an id. -/
def project (ws : Workspace σ) (id : ProjectId) : ProjectCell :=
  ws.projects[id.index]?.getD {}

/-- Whether a project is in use or in the model. -/
def isLive (ws : Workspace σ) (id : ProjectId) : Bool :=
  (ws.inUse ++ ws.model.projects).any fun entry => entry.2 = id

/-! ## Changing one of them -/

/-- Changes a config. -/
def updateConfig (ws : Workspace σ) (id : ConfigId) (f : ConfigCell → ConfigCell) :
    Workspace σ :=
  { ws with configs := ws.configs.modify id.index f }

/-- Changes a config set. -/
def updateSet (ws : Workspace σ) (id : SetId) (f : SetCell → SetCell) : Workspace σ :=
  { ws with sets := ws.sets.modify id.index f }

/-- Changes a project. -/
def updateProject (ws : Workspace σ) (id : ProjectId) (f : ProjectCell → ProjectCell) :
    Workspace σ :=
  { ws with projects := ws.projects.modify id.index f }

/-- Makes a config. -/
def newConfig (ws : Workspace σ) (cell : ConfigCell) : ConfigId × Workspace σ :=
  (⟨ws.configs.size⟩, { ws with configs := ws.configs.push cell })

/-- Makes a config set. -/
def newSet (ws : Workspace σ) (cell : SetCell) : SetId × Workspace σ :=
  (⟨ws.sets.size⟩, { ws with sets := ws.sets.push cell })

/-- A change to one config leaves all others as they are. -/
theorem config_updateConfig (ws : Workspace σ) (id other : ConfigId)
    (f : ConfigCell → ConfigCell) (h : id.index < ws.configs.size) :
    (ws.updateConfig id f).config other =
      if other = id then f (ws.config id) else ws.config other := by
  obtain ⟨i⟩ := id
  obtain ⟨j⟩ := other
  have h : i < ws.configs.size := h
  by_cases hij : j = i
  · subst hij
    simp [config, updateConfig, Array.getElem_modify, h]
  · have hji : i ≠ j := fun e => hij e.symm
    simp [config, updateConfig, Array.getElem?_modify, hij, hji]

/-- A change to one config set leaves all others as they are. -/
theorem set_updateSet (ws : Workspace σ) (id other : SetId) (f : SetCell → SetCell)
    (h : id.index < ws.sets.size) :
    (ws.updateSet id f).set other = if other = id then f (ws.set id) else ws.set other := by
  obtain ⟨i⟩ := id
  obtain ⟨j⟩ := other
  have h : i < ws.sets.size := h
  by_cases hij : j = i
  · subst hij
    simp [set, updateSet, Array.getElem_modify, h]
  · have hji : i ≠ j := fun e => hij e.symm
    simp [set, updateSet, Array.getElem?_modify, hij, hji]

/-! ## Forgetting -/

/-- Forgets the merged view of a config set. -/
def resetSet (ws : Workspace σ) (id : SetId) : Workspace σ :=
  ws.updateSet id fun cell => { cell with merged := none }

/-- Forgets the merged views of config sets, one after the other. -/
def resetSets (ws : Workspace σ) (ids : List SetId) : Workspace σ :=
  ids.foldl resetSet ws

/-- Forgets what was read of a config, and the sets that were merged from it. -/
def reloadConfig (ws : Workspace σ) (id : ConfigId) : Workspace σ :=
  (ws.updateConfig id fun cell => { cell with contents := none }).resetSets
    (ws.config id).dependents

end Workspace

end BeanWiring
