/-
# Projects in a workspace

Projects hold configs, added by hand or found by locators, and config sets.  Names are
unique within a project.  Removing a config also removes it from the sets of its
project.
-/
import BeanWiring.Workspace.Sets

namespace BeanWiring

namespace Workspace

variable {σ : Type}

/-! ## Projects in use -/

/-- Puts a project in use, in place of the one of its name. -/
def useProject (ws : Workspace σ) (cell : ProjectCell) : ProjectId × Workspace σ :=
  let id : ProjectId := ⟨ws.projects.size⟩
  (id, { ws with
    projects := ws.projects.push cell
    inUse := Keyed.put Prod.fst (cell.name, id) ws.inUse })

/-- Ends the use of a project; the flag tells whether one was in use. -/
def dropProject (ws : Workspace σ) (name : String) : Bool × Workspace σ :=
  (Keyed.has Prod.fst name ws.inUse, { ws with inUse := Keyed.erase Prod.fst name ws.inUse })

/-! ## Configs -/

/-- Whether a project has a config of a name. -/
def hasConfig (ws : Workspace σ) (project : ProjectId) (name : String) : Bool :=
  (ws.configOf? project name).isSome

/-- The configs of a project. -/
def configsOf (ws : Workspace σ) (project : ProjectId) : List ConfigId :=
  (ws.project project).configs.map Prod.snd

/-- Adds a config to a project, unless there is one of its name. -/
def insertConfig (ws : Workspace σ) (project : ProjectId) (name : String)
    (origin : ConfigOrigin) : Except ModelError (ConfigId × Workspace σ) :=
  if ws.hasConfig project name then
    .error (.duplicate .config name)
  else
    let (id, ws) := ws.newConfig { name, origin, project }
    .ok (id, ws.updateProject project fun cell =>
      { cell with configs := cell.configs ++ [(name, id)] })

theorem eq_of_insertConfig {ws ws' : Workspace σ} {project : ProjectId} {name : String}
    {origin : ConfigOrigin} {id : ConfigId}
    (done : ws.insertConfig project name origin = .ok (id, ws')) :
    ws.hasConfig project name = false ∧ id = ⟨ws.configs.size⟩ ∧
      ws' = (ws.newConfig { name, origin, project }).2.updateProject project fun cell =>
        { cell with configs := cell.configs ++ [(name, ⟨ws.configs.size⟩)] } := by
  unfold insertConfig at done
  split at done
  · cases done
  · rename_i free
    cases Except.ok.inj done
    exact ⟨Bool.eq_false_iff.2 free, rfl, rfl⟩

/-- Adds a config by hand. -/
def addConfig (ws : Workspace σ) (project : ProjectId) (name : String) :
    Except ModelError (ConfigId × Workspace σ) :=
  ws.insertConfig project name .manual

/-- Adds configs by hand, those left out whose names are taken. -/
def addConfigs (ws : Workspace σ) (project : ProjectId) (names : List String) : Workspace σ :=
  names.foldl (fun ws name =>
    match ws.addConfig project name with
    | .ok (_, ws) => ws
    | .error _ => ws) ws

/-- The config sets of a project. -/
def setsOf (ws : Workspace σ) (project : ProjectId) : List SetId :=
  (ws.project project).sets.map Prod.snd

/-- Removes a config from a project and from all its sets; the flag tells whether there was
one. -/
def removeConfig (ws : Workspace σ) (project : ProjectId) (name : String) :
    Bool × Workspace σ :=
  if ws.hasConfig project name then
    let ws := ws.updateProject project fun cell =>
      { cell with configs := Keyed.erase Prod.fst name cell.configs }
    (true, (ws.setsOf project).foldl (fun ws set => (ws.removeMember set name).2) ws)
  else
    (false, ws)

/-- Removes configs one after the other. -/
def removeConfigs (ws : Workspace σ) (project : ProjectId) (names : List String) :
    Workspace σ :=
  names.foldl (fun ws name => (ws.removeConfig project name).2) ws

/-! ## Located configs -/

/-- Whether a config of a project was found by a locator. -/
def isDetected (ws : Workspace σ) (project : ProjectId) (name : String) : Bool :=
  match ws.configOf? project name with
  | some id =>
    match (ws.config id).origin with
    | .detected _ => true
    | _ => false
  | none => false

/-- The names of the configs that a locator has found. -/
def detectedBy (ws : Workspace σ) (project : ProjectId) (locator : String) : List String :=
  ((ws.project project).configs.filter fun entry =>
    (ws.config entry.2).origin = .detected locator).map Prod.fst

/-- Adds the configs that a locator has found, those left out whose names are taken.  The
names of the others are listed. -/
def addDetected (ws : Workspace σ) (project : ProjectId) (locator : String) :
    List String → List String × Workspace σ
  | [] => ([], ws)
  | name :: rest =>
    match ws.insertConfig project name (.detected locator) with
    | .ok (_, ws) =>
      let (added, ws) := ws.addDetected project locator rest
      (name :: added, ws)
    | .error _ => ws.addDetected project locator rest

/-- Exchanges what a locator had found before for what it finds now.  Configs that it finds
again stay as they are; the names of the new ones are listed. -/
def replaceDetected (ws : Workspace σ) (project : ProjectId) (locator : String)
    (names : List String) : List String × Workspace σ :=
  let stale := (ws.detectedBy project locator).filter fun name => !names.contains name
  (ws.removeConfigs project stale).addDetected project locator names

/-! ## Config sets -/

/-- The config set of a project by its name. -/
def setOf? (ws : Workspace σ) (project : ProjectId) (name : String) : Option SetId :=
  (ws.project project).sets.lookup name

/-- Adds a config set, unless there is one of its name. -/
def addSet (ws : Workspace σ) (project : ProjectId) (name : String) :
    Except ModelError (SetId × Workspace σ) :=
  if (ws.setOf? project name).isSome then
    .error (.duplicate .configSet name)
  else
    let (id, ws) := ws.newSet { name, project }
    .ok (id, ws.updateProject project fun cell => { cell with sets := cell.sets ++ [(name, id)] })

theorem eq_of_addSet {ws ws' : Workspace σ} {project : ProjectId} {name : String} {id : SetId}
    (done : ws.addSet project name = .ok (id, ws')) :
    (ws.setOf? project name).isSome = false ∧ id = ⟨ws.sets.size⟩ ∧
      ws' = (ws.newSet { name, project }).2.updateProject project fun cell =>
        { cell with sets := cell.sets ++ [(name, ⟨ws.sets.size⟩)] } := by
  unfold addSet at done
  split at done
  · cases done
  · rename_i free
    cases Except.ok.inj done
    exact ⟨Bool.eq_false_iff.2 free, rfl, rfl⟩

/-- Notes that a locator contributed a set. -/
def noteLocatedSet (locator name : String) (cell : ProjectCell) : ProjectCell :=
  let names := (cell.locatedSets.lookup locator).getD []
  { cell with locatedSets := Keyed.put Prod.fst (locator, names ++ [name]) cell.locatedSets }

/-- Adds a config set that goes when its locator goes. -/
def addLocatedSet (ws : Workspace σ) (project : ProjectId) (locator name : String) :
    Except ModelError (SetId × Workspace σ) := do
  let (id, ws) ← ws.addSet project name
  return (id, ws.updateProject project (noteLocatedSet locator name))

/-- A set that a locator adds is made like any other, and then recorded. -/
theorem eq_of_addLocatedSet {ws ws' : Workspace σ} {project : ProjectId} {locator name : String}
    {id : SetId} (done : ws.addLocatedSet project locator name = .ok (id, ws')) :
    ∃ added, ws.addSet project name = .ok (id, added) ∧
      ws' = added.updateProject project (noteLocatedSet locator name) := by
  unfold addLocatedSet at done
  cases added : ws.addSet project name with
  | error _ =>
    rw [added] at done
    cases done
  | ok result =>
    rw [added] at done
    cases Except.ok.inj done
    exact ⟨_, rfl, rfl⟩

/-- Removes a config set; the flag tells whether there was one. -/
def removeSet (ws : Workspace σ) (project : ProjectId) (name : String) : Bool × Workspace σ :=
  ((ws.setOf? project name).isSome, ws.updateProject project fun cell =>
    { cell with
      sets := Keyed.erase Prod.fst name cell.sets
      locatedSets := cell.locatedSets.map fun entry =>
        (entry.1, entry.2.filter (· ≠ name)) })

/-- Removes all configs and config sets that a locator contributed. -/
def removeDetected (ws : Workspace σ) (project : ProjectId) (locator : String) :
    Workspace σ :=
  let ws := ws.removeConfigs project (ws.detectedBy project locator)
  let sets := ((ws.project project).locatedSets.lookup locator).getD []
  let ws := ws.updateProject project fun cell =>
    { cell with locatedSets := Keyed.erase Prod.fst locator cell.locatedSets }
  sets.foldl (fun ws name => (ws.removeSet project name).2) ws

/-- The config sets of a project that have a config as a member, by either of its names. -/
def setsWith (ws : Workspace σ) (project : ProjectId) (config : String) : List SetId :=
  let external := externalName (ws.project project).name config
  (ws.setsOf project).filter fun set => ws.hasMember set config || ws.hasMember set external

/-! ## Settings -/

/-- Switches imports on or off.  A change reloads all configs of the project. -/
def enableImports (ws : Workspace σ) (project : ProjectId) (enabled : Bool) : Workspace σ :=
  if (ws.project project).settings.importsEnabled = enabled then
    ws
  else
    let ws := ws.updateProject project fun cell =>
      { cell with settings := { cell.settings with importsEnabled := enabled } }
    (ws.configsOf project).foldl reloadConfig ws

end Workspace

end BeanWiring
