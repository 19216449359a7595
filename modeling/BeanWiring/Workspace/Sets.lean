/-
# Config sets in a workspace

A member of a config set is named as it is named in the set's project, or by its
external name, which also reaches the other projects of the model.  The members are
merged when a question needs them; the merged view is forgotten when members or
policies change, or when a config that it was merged from is reloaded.
-/
import BeanWiring.Workspace.Read

namespace BeanWiring

namespace Workspace

variable {σ : Type}

/-! ## Names of members -/

/-- The config of a project by its plain name. -/
def configOf? (ws : Workspace σ) (project : ProjectId) (name : String) : Option ConfigId :=
  (ws.project project).configs.lookup name

/-- The config of an external name in the model. -/
def externalConfig? (ws : Workspace σ) (name : String) : Option (ProjectId × ConfigId) := do
  let (projectName, configName) ← splitExternal? name
  let project ← ws.model.projects.lookup projectName
  let config ← ws.configOf? project configName
  return (project, config)

/-- The config that a name stands for in a project.  A name with a slash at the start is an
external one; that of another project only counts once the project has been in the model. -/
def resolveConfig? (ws : Workspace σ) (project : ProjectId) (name : String) :
    Option ConfigId :=
  let cell := ws.project project
  if !Text.startsWith ['/'] name.toList then
    ws.configOf? project name
  else
    match localName? cell.name name with
    | some own => ws.configOf? project own
    | none =>
      if cell.isAttached then (ws.externalConfig? name).map Prod.snd else none

/-- The configs of a set, those members left out that no config has the name of.  A set whose
project is gone has none. -/
def memberConfigs (ws : Workspace σ) (set : SetCell) : List ConfigId :=
  if ws.isLive set.project then
    set.settings.members.filterMap (ws.resolveConfig? set.project)
  else
    []

/-! ## Merging -/

/-- Notes that a set is merged from a config. -/
def addDependent (set : SetId) (ws : Workspace σ) (id : ConfigId) : Workspace σ :=
  ws.updateConfig id fun cell =>
    { cell with
      dependents := if set ∈ cell.dependents then cell.dependents else cell.dependents ++ [set] }

/-- Merges the members of a set from their current trees. -/
def mergeSet [DocumentSource σ] (id : SetId) : StateM (Workspace σ) (MergedSet ConfigId) := do
  let cell := (← get).set id
  let members := (← get).memberConfigs cell
  let trees ← members.mapM readTree
  modify fun ws => members.foldl (addDependent id) ws
  return .ofMembers cell.settings (members.zip trees)

/-- The merged view of a set, made unless there is one. -/
def readSet [DocumentSource σ] (id : SetId) : StateM (Workspace σ) (MergedSet ConfigId) := do
  match ((← get).set id).merged with
  | some merged => return merged
  | none =>
    let merged ← mergeSet id
    modify fun ws => ws.updateSet id fun cell => { cell with merged := some merged }
    return merged

/-! ## Members and policies -/

/-- Changes the settings of a set, and forgets its merged view. -/
def changeSettings (ws : Workspace σ) (id : SetId) (f : SetSettings → SetSettings) :
    Workspace σ :=
  ws.updateSet id fun cell => { cell with settings := f cell.settings, merged := none }

/-- Whether a set has a member of a name. -/
def hasMember (ws : Workspace σ) (id : SetId) (name : String) : Bool :=
  (ws.set id).settings.members.contains name

/-- Adds a member at the end, unless there is one of the name; the flag tells. -/
def addMember (ws : Workspace σ) (id : SetId) (name : String) : Bool × Workspace σ :=
  if ws.hasMember id name then
    (false, ws)
  else
    (true, ws.changeSettings id fun s => { s with members := s.members ++ [name] })

/-- Removes a member; the flag tells whether there was one. -/
def removeMember (ws : Workspace σ) (id : SetId) (name : String) : Bool × Workspace σ :=
  if ws.hasMember id name then
    (true, ws.changeSettings id fun s => { s with members := s.members.filter (· ≠ name) })
  else
    (false, ws)

/-- Says whether later beans of a name replace earlier ones. -/
def allowBeanOverriding (ws : Workspace σ) (id : SetId) (allowed : Bool) : Workspace σ :=
  ws.changeSettings id fun s => { s with allowBeanOverriding := allowed }

/-- Says whether later aliases of a name replace earlier ones. -/
def allowAliasOverriding (ws : Workspace σ) (id : SetId) (allowed : Bool) : Workspace σ :=
  ws.changeSettings id fun s => { s with allowAliasOverriding := allowed }

/-- Says whether a set declares every bean that its members refer to. -/
def markIncomplete (ws : Workspace σ) (id : SetId) (isIncomplete : Bool) : Workspace σ :=
  ws.changeSettings id fun s => { s with isIncomplete }

end Workspace

end BeanWiring
