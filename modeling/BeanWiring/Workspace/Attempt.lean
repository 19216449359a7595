/-
# Attempts

The operations that can fail, step by step.  An attempt works on the workspace as it goes and
stops where it fails; nothing takes back the steps before.

What an operation comes to is also defined as a whole: it gives the workspace that it leads to,
or an error and no workspace.

Main statements: `runOn_addProject` and the like, that an attempt leads where the operation
leads, and that it leaves everything as it was where the operation gives an error.
-/
import BeanWiring.Document.FileTree
import BeanWiring.Workspace.Model

namespace BeanWiring

/-! ## Locators -/

/-- Finds the names of configs for a project, or fails. -/
structure ConfigLocator where
  name : String
  locate : ProjectSettings → Except ModelError (List String)

/-- Finds the config documents among names. -/
def ConfigLocator.ofNames (name : String) (names : List String) : ConfigLocator :=
  ⟨name, fun settings => .ok (settings.locateNames names)⟩

/-- A locator at work on a tree. -/
def FileTree.Locator.on (locator : FileTree.Locator) (t : FileTree) : ConfigLocator :=
  ⟨locator.name, fun settings => t.locate settings locator⟩

namespace Workspace

variable {σ α β : Type}

/-- Something done to a workspace that may stop at an error. -/
abbrev Attempt (σ α : Type) := ExceptT ModelError (StateM (Workspace σ)) α

namespace Attempt

/-- What an attempt gives, and the workspace that it leaves. -/
def runOn (attempt : Attempt σ α) (ws : Workspace σ) : Except ModelError α × Workspace σ :=
  attempt.run.run ws

/-- Stops unless the model is open. -/
def ensureOpen : Attempt σ Unit := do
  if !(← get).model.isOpen then
    throw .closed

/-- Tells all listeners of an event. -/
def fire (event : ModelEvent) : Attempt σ Unit :=
  modify fun ws => ws.fire event

/-! ## Projects -/

/-- Adds a project to the model. -/
def addProject (id : ProjectId) : Attempt σ Unit := do
  ensureOpen
  let name := ((← get).project id).name
  if Keyed.has Prod.fst name (← get).model.projects then
    throw (.duplicate .project name)
  modify fun ws => ws.updateProject id fun cell => { cell with isAttached := true }
  modify fun ws =>
    { ws with model := { ws.model with projects := ws.model.projects ++ [(name, id)] } }
  fire (.projectAdded name)

/-- Removes a project from the model.  It is taken off the list before it turns out whether it
was there. -/
def removeProject (name : String) : Attempt σ ProjectId := do
  ensureOpen
  let found := (← get).model.projects.lookup name
  modify fun ws =>
    { ws with model := { ws.model with
        projects := Keyed.erase Prod.fst name ws.model.projects } }
  match found with
  | none => throw (.unknownProject name)
  | some id =>
    fire (.projectRemoved name)
    return id

/-! ## Configs -/

/-- Adds a config to a project. -/
def insertConfig (project : ProjectId) (name : String) (origin : ConfigOrigin) :
    Attempt σ ConfigId := do
  if (← get).hasConfig project name then
    throw (.duplicate .config name)
  let id ← modifyGet fun ws => ws.newConfig { name, origin, project }
  modify fun ws => ws.updateProject project fun cell =>
    { cell with configs := cell.configs ++ [(name, id)] }
  return id

/-- Adds a config by hand. -/
def addConfig (project : ProjectId) (name : String) : Attempt σ ConfigId :=
  insertConfig project name .manual

/-- Exchanges what a locator had found before for what it finds now.  The names of the new
configs are listed. -/
def detect (project : ProjectId) (locator : ConfigLocator) : Attempt σ (List String) := do
  let settings := ((← get).project project).settings
  let names ← MonadExcept.ofExcept (locator.locate settings)
  modifyGet fun ws => ws.replaceDetected project locator.name names

/-- Reloads the config of a name. -/
def reload (name : String) : Attempt σ Unit := do
  ensureOpen
  match (← get).findConfig? name with
  | none => throw (.unresolvedExternalName name)
  | some (project, config) => modify fun ws => ws.reloadInModel project config

/-- Reloads the configs whose documents have changed, and lists their external names. -/
def refresh [DocumentSource σ] : Attempt σ (List String) := do
  ensureOpen
  let ws ← get
  let entries := ws.model.projects.flatMap fun entry =>
    (ws.configsOf entry.2).map fun config => (entry.2, config)
  modifyGet fun ws => entries.foldl refreshConfig ([], ws)

/-! ## Config sets -/

/-- Adds a config set. -/
def addSet (project : ProjectId) (name : String) : Attempt σ SetId := do
  if ((← get).setOf? project name).isSome then
    throw (.duplicate .configSet name)
  let id ← modifyGet fun ws => ws.newSet { name, project }
  modify fun ws => ws.updateProject project fun cell =>
    { cell with sets := cell.sets ++ [(name, id)] }
  return id

/-- Adds a config set that goes when its locator goes. -/
def addLocatedSet (project : ProjectId) (locator name : String) : Attempt σ SetId := do
  let id ← addSet project name
  modify fun ws => ws.updateProject project (noteLocatedSet locator name)
  return id

end Attempt

/-! ## Where attempts lead -/

/-- What an operation as a whole amounts to: it leads to its workspace, or gives an error and
leaves the one that there was. -/
def leadsTo (ws : Workspace σ) :
    Except ModelError (α × Workspace σ) → Except ModelError α × Workspace σ
  | .ok (a, ws') => (.ok a, ws')
  | .error e => (.error e, ws)

/-- A result is handed on with the workspace it comes with. -/
@[simp] theorem leadsTo_ok (ws : Workspace σ) (result : α × Workspace σ) :
    ws.leadsTo (.ok result) = (.ok result.1, result.2) :=
  rfl

/-- An error is handed on with the workspace as it was. -/
@[simp] theorem leadsTo_error (ws : Workspace σ) (e : ModelError) :
    ws.leadsTo (.error e : Except ModelError (α × Workspace σ)) = (.error e, ws) :=
  rfl

namespace Attempt

variable (ws : Workspace σ)

/-! ### Steps -/

@[simp] theorem runOn_pure (a : α) : (pure a : Attempt σ α).runOn ws = (.ok a, ws) :=
  rfl

/-- An error raised leaves the workspace as it was. -/
@[simp] theorem runOn_throw (e : ModelError) :
    (throw e : Attempt σ α).runOn ws = (.error e, ws) :=
  rfl

@[simp] theorem runOn_get : (get : Attempt σ (Workspace σ)).runOn ws = (.ok ws, ws) :=
  rfl

@[simp] theorem runOn_modify (f : Workspace σ → Workspace σ) :
    (modify f : Attempt σ PUnit).runOn ws = (.ok (), f ws) :=
  rfl

@[simp] theorem runOn_modifyGet (f : Workspace σ → α × Workspace σ) :
    (modifyGet f : Attempt σ α).runOn ws = (.ok (f ws).1, (f ws).2) :=
  rfl

@[simp] theorem runOn_ofExcept (result : Except ModelError α) :
    (MonadExcept.ofExcept result : Attempt σ α).runOn ws = (result, ws) := by
  cases result with
  | ok _ => rfl
  | error _ => rfl

/-- The second goes on from where the first has led, unless the first has failed. -/
@[simp] theorem runOn_bind (first : Attempt σ α) (second : α → Attempt σ β) :
    (first >>= second).runOn ws
      = match first.runOn ws with
        | (.ok a, ws') => (second a).runOn ws'
        | (.error e, ws') => (.error e, ws') := by
  rw [runOn, ExceptT.run_bind, StateT.run_bind, runOn]
  rcases first.run.run ws with ⟨result, ws'⟩
  cases result with
  | ok _ => rfl
  | error _ => rfl

/-- A map over the answer does not touch the workspace. -/
@[simp] theorem runOn_map (f : α → β) (attempt : Attempt σ α) :
    (f <$> attempt).runOn ws = ((attempt.runOn ws).1.map f, (attempt.runOn ws).2) := by
  rw [map_eq_pure_bind, runOn_bind]
  rcases attempt.runOn ws with ⟨result, ws'⟩
  cases result with
  | ok _ => rfl
  | error _ => rfl

/-- The guard of operations fails exactly on a closed model, and leaves every workspace alone. -/
@[simp] theorem runOn_ensureOpen :
    (ensureOpen (σ := σ)).runOn ws
      = if ws.model.isOpen then (.ok (), ws) else (.error .closed, ws) := by
  cases isOpen : ws.model.isOpen <;> simp [ensureOpen, isOpen]

/-! ### Operations -/

/-- Adding a project by steps is adding it at once. -/
theorem runOn_addProject (id : ProjectId) :
    (addProject id).runOn ws = ws.leadsTo ((ws.addProject id).map ((), ·)) := by
  unfold addProject Workspace.addProject
  cases isOpen : ws.model.isOpen with
  | false => simp [isOpen, Except.map]
  | true =>
    cases taken : Keyed.has Prod.fst (ws.project id).name ws.model.projects with
    | true => simp [isOpen, taken, Except.map]
    | false => simp [isOpen, taken, Except.map, fire]

/-- A project that is not there is taken off the list in vain. -/
theorem runOn_removeProject (name : String) :
    (removeProject name).runOn ws = ws.leadsTo (ws.removeProject name) := by
  unfold removeProject Workspace.removeProject
  cases isOpen : ws.model.isOpen with
  | false => simp [isOpen]
  | true =>
    cases found : ws.model.projects.lookup name with
    | some id => simp [isOpen, found, Except.map, fire]
    | none =>
      have absent : name ∉ ws.model.projects.map Prod.fst := by
        rw [← Keyed.lookup_isSome_iff_mem, found]
        exact Bool.false_ne_true
      rw [runOn_bind, runOn_ensureOpen, if_pos isOpen]
      simp [found, Keyed.erase_of_notMem absent]

/-- Entering a config by steps is entering it at once. -/
theorem runOn_insertConfig (project : ProjectId) (name : String) (origin : ConfigOrigin) :
    (insertConfig project name origin).runOn ws
      = ws.leadsTo (ws.insertConfig project name origin) := by
  unfold insertConfig Workspace.insertConfig
  cases taken : ws.hasConfig project name with
  | true => simp [taken]
  | false => simp [taken, Except.map]

/-- Adding a config by steps is adding it at once. -/
theorem runOn_addConfig (project : ProjectId) (name : String) :
    (addConfig project name).runOn ws = ws.leadsTo (ws.addConfig project name) :=
  runOn_insertConfig ws project name .manual

/-- Detection by steps is the search followed by the exchange. -/
theorem runOn_detect (project : ProjectId) (locator : ConfigLocator) :
    (detect project locator).runOn ws
      = ws.leadsTo ((locator.locate (ws.project project).settings).map
          (ws.replaceDetected project locator.name)) := by
  unfold detect
  cases located : locator.locate (ws.project project).settings with
  | error e => simp [located, Except.map]
  | ok names => simp [located, Except.map]

/-- The reload of a document by steps is the reload at once. -/
theorem runOn_reload (name : String) :
    (reload name).runOn ws = ws.leadsTo ((ws.reload name).map ((), ·)) := by
  unfold reload Workspace.reload
  cases isOpen : ws.model.isOpen with
  | false => simp [isOpen, Except.map]
  | true =>
    cases found : ws.findConfig? name with
    | none => simp [isOpen, found, Except.map]
    | some entry => simp [isOpen, found, Except.map]

/-- The refresh by steps is the refresh at once. -/
theorem runOn_refresh [DocumentSource σ] :
    (refresh (σ := σ)).runOn ws = ws.leadsTo ws.refresh := by
  unfold refresh Workspace.refresh
  cases isOpen : ws.model.isOpen with
  | false => simp [isOpen]
  | true => simp [isOpen]

/-- Adding a set by steps is adding it at once. -/
theorem runOn_addSet (project : ProjectId) (name : String) :
    (addSet project name).runOn ws = ws.leadsTo (ws.addSet project name) := by
  unfold addSet Workspace.addSet
  cases taken : (ws.setOf? project name).isSome with
  | true => simp [taken]
  | false => simp [taken, Except.map]

/-- Adding the set of a locator by steps is adding it at once. -/
theorem runOn_addLocatedSet (project : ProjectId) (locator name : String) :
    (addLocatedSet project locator name).runOn ws
      = ws.leadsTo (ws.addLocatedSet project locator name) := by
  unfold addLocatedSet Workspace.addLocatedSet
  rw [runOn_bind, runOn_addSet]
  cases ws.addSet project name with
  | error e => rfl
  | ok result => rfl

end Attempt

end Workspace

end BeanWiring
