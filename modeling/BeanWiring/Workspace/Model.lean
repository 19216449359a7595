/-
# The model

The collection of projects that are known to each other.  It has to be open to hold
projects; closing it lets all of them go.  Listeners are told what happens, in the order
in which they subscribed.
-/
import BeanWiring.Workspace.Projects

namespace BeanWiring

namespace Model

/-! ## Listeners -/

/-- Tells all listeners of an event. -/
def fire (m : Model) (event : ModelEvent) : Model :=
  { m with deliveries := m.deliveries ++ m.listeners.map fun listener => (listener, event) }

/-- Adds a listener. -/
def subscribe (m : Model) : ListenerId × Model :=
  let id : ListenerId := ⟨m.subscriptions⟩
  (id, { m with listeners := m.listeners ++ [id], subscriptions := m.subscriptions + 1 })

/-- Removes a listener; the flag tells whether it was there. -/
def unsubscribe (m : Model) (id : ListenerId) : Bool × Model :=
  (m.listeners.contains id, { m with listeners := m.listeners.filter (· ≠ id) })

/-- The events that a listener was told of, in order. -/
def eventsFor (m : Model) (listener : ListenerId) : List ModelEvent :=
  (m.deliveries.filter fun d => d.1 = listener).map Prod.snd

/-! ## Opening and closing -/

/-- Opens the model. -/
def opened (m : Model) : Model :=
  if m.isOpen then m else { m with isOpen := true }.fire .opened

/-- Closes the model, and lets all projects go. -/
def closed (m : Model) : Model :=
  if m.isOpen then { m with isOpen := false, projects := [] }.fire .closed else m

end Model

namespace Workspace

variable {σ : Type}

/-- Tells all listeners of an event. -/
def fire (ws : Workspace σ) (event : ModelEvent) : Workspace σ :=
  { ws with model := ws.model.fire event }

/-- Opens the model. -/
def openModel (ws : Workspace σ) : Workspace σ :=
  { ws with model := ws.model.opened }

/-- Closes the model. -/
def closeModel (ws : Workspace σ) : Workspace σ :=
  { ws with model := ws.model.closed }

/-! ## Projects -/

/-- Adds a project to the model. -/
def addProject (ws : Workspace σ) (id : ProjectId) : Except ModelError (Workspace σ) :=
  let name := (ws.project id).name
  if !ws.model.isOpen then
    .error .closed
  else if Keyed.has Prod.fst name ws.model.projects then
    .error (.duplicate .project name)
  else
    let ws := ws.updateProject id fun cell => { cell with isAttached := true }
    let model := { ws.model with projects := ws.model.projects ++ [(name, id)] }
    .ok ({ ws with model }.fire (.projectAdded name))

/-- A project that is added comes last in the model, and sees the others. -/
theorem eq_of_addProject {ws ws' : Workspace σ} {id : ProjectId}
    (done : ws.addProject id = .ok ws') :
    ws.model.isOpen = true ∧ (ws.project id).name ∉ ws.model.projects.map Prod.fst ∧
      ws' = fire { ws.updateProject id (fun cell => { cell with isAttached := true }) with
        model := { ws.model with projects := ws.model.projects ++ [((ws.project id).name, id)] } }
          (.projectAdded (ws.project id).name) := by
  unfold addProject at done
  dsimp only at done
  split at done
  · cases done
  · rename_i isOpen
    split at done
    · cases done
    · rename_i free
      exact ⟨by simpa using isOpen, mt Keyed.has_iff_mem.2 free, (Except.ok.inj done).symm⟩

/-- Removes a project from the model. -/
def removeProject (ws : Workspace σ) (name : String) :
    Except ModelError (ProjectId × Workspace σ) :=
  if !ws.model.isOpen then
    .error .closed
  else
    match ws.model.projects.lookup name with
    | none => .error (.unknownProject name)
    | some id =>
      let model := { ws.model with projects := Keyed.erase Prod.fst name ws.model.projects }
      .ok (id, { ws with model }.fire (.projectRemoved name))

/-- A project that is removed was in the model. -/
theorem eq_of_removeProject {ws ws' : Workspace σ} {name : String} {id : ProjectId}
    (done : ws.removeProject name = .ok (id, ws')) :
    ws.model.isOpen = true ∧ ws.model.projects.lookup name = some id ∧
      ws' = fire { ws with
        model := { ws.model with projects := Keyed.erase Prod.fst name ws.model.projects } }
          (.projectRemoved name) := by
  unfold removeProject at done
  split at done
  · cases done
  · rename_i isOpen
    split at done
    · cases done
    · rename_i found
      cases Except.ok.inj done
      exact ⟨by simpa using isOpen, found, rfl⟩

/-! ## Configs -/

/-- The config of a name: of an external name, or else the first that some project has
under the name. -/
def findConfig? (ws : Workspace σ) (name : String) : Option (ProjectId × ConfigId) :=
  match splitExternal? name with
  | some _ => ws.externalConfig? name
  | none =>
    ws.model.projects.findSome? fun entry =>
      (ws.configOf? entry.2 name).map fun config => (entry.2, config)

/-- The config sets of all projects of the model that have a config as a member: by its
external name, or in its own project by its plain name. -/
def modelSetsWith (ws : Workspace σ) (project : ProjectId) (config : String) :
    List (ProjectId × SetId) :=
  let name := (ws.project project).name
  let external := externalName name config
  ws.model.projects.flatMap fun entry =>
    let isOwn := (ws.project entry.2).name = name
    let sets := (ws.setsOf entry.2).filter fun set =>
      ws.hasMember set external || (isOwn && ws.hasMember set config)
    sets.map fun set => (entry.2, set)

/-- Forgets a config set, and tells the listeners. -/
def resetSetOf (ws : Workspace σ) (entry : ProjectId × SetId) : Workspace σ :=
  (ws.resetSet entry.2).fire
    (.setReset (ws.project entry.1).name (ws.set entry.2).name)

/-- Reloads a config and forgets all sets that have it, and tells the listeners. -/
def reloadInModel (ws : Workspace σ) (project : ProjectId) (id : ConfigId) : Workspace σ :=
  let config := (ws.config id).name
  let ws := (ws.reloadConfig id).fire (.configReset (ws.project project).name config)
  (ws.modelSetsWith project config).foldl resetSetOf ws

/-- Reloads the config of a name. -/
def reload (ws : Workspace σ) (name : String) : Except ModelError (Workspace σ) :=
  if !ws.model.isOpen then
    .error .closed
  else
    match ws.findConfig? name with
    | some (project, config) => .ok (ws.reloadInModel project config)
    | none => .error (.unresolvedExternalName name)

/-- A config of the model is reloaded if one is found. -/
theorem eq_of_reload {ws ws' : Workspace σ} {name : String} (done : ws.reload name = .ok ws') :
    ∃ project config, ws.findConfig? name = some (project, config) ∧
      ws' = ws.reloadInModel project config := by
  unfold reload at done
  split at done
  · cases done
  · split at done
    · rename_i project config found
      exact ⟨project, config, found, (Except.ok.inj done).symm⟩
    · cases done

/-- Reloads a config if its document has changed, and lists its external name. -/
def refreshConfig [DocumentSource σ] (found : List String × Workspace σ)
    (entry : ProjectId × ConfigId) : List String × Workspace σ :=
  let (names, ws) := found
  if ws.hasChanged entry.2 then
    let name := externalName (ws.project entry.1).name (ws.config entry.2).name
    (names ++ [name], ws.reloadInModel entry.1 entry.2)
  else
    (names, ws)

/-- Reloads the configs whose documents have changed, and lists their external names. -/
def refresh [DocumentSource σ] (ws : Workspace σ) :
    Except ModelError (List String × Workspace σ) :=
  if !ws.model.isOpen then
    .error .closed
  else
    let entries := ws.model.projects.flatMap fun entry =>
      (ws.configsOf entry.2).map fun config => (entry.2, config)
    .ok (entries.foldl refreshConfig ([], ws))

end Workspace

end BeanWiring
