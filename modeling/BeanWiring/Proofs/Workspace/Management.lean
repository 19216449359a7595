/-
# Changes of projects and sets

What the management of projects, configs, config sets and the model does to a workspace.
All of it preserves the invariant of workspaces; but names can come to stand for other
configs, or for none, and sets that have been merged are not told.

Main statement: `ManagementStep.sound`.
-/
import BeanWiring.Proofs.Workspace.Content

namespace BeanWiring.Workspace

variable {σ : Type} {ws ws' : Workspace σ}

/-! ## Projects -/

/-- A change to a project that leaves it no other configs than it had. -/
theorem Grounded.updateProject (h : ws.Grounded) (p : ProjectId) {f : ProjectCell → ProjectCell}
    (held : ∀ cell, ∀ entry ∈ (f cell).configs, entry ∈ cell.configs) :
    (ws.updateProject p f).Grounded := by
  refine h.congr rfl ?_
  intro q entry listed
  rcases project_updateProject_cases ws p q f with same | ⟨rfl, changed⟩
  · rw [same] at listed
    exact h.held q entry listed
  · rw [changed] at listed
    exact h.held q entry (held _ entry listed)

/-- An edit of a project that enters no config keeps the workspace sound. -/
theorem Sound.updateProject (h : ws.Sound) (p : ProjectId) {f : ProjectCell → ProjectCell}
    (held : ∀ cell, ∀ entry ∈ (f cell).configs, entry ∈ cell.configs) :
    (ws.updateProject p f).Sound :=
  h.congr rfl rfl (h.grounded.updateProject p held).held

/-- A change of what is in use and of the model. -/
theorem Sound.withModel (h : ws.Sound) (inUse : List (String × ProjectId)) (model : Model) :
    ({ ws with inUse, model } : Workspace σ).Sound :=
  h.congr rfl rfl h.held

/-- A new project without configs stands on known ground. -/
theorem Grounded.useProject (h : ws.Grounded) {cell : ProjectCell} (empty : cell.configs = []) :
    (ws.useProject cell).2.Grounded := by
  refine h.congr rfl ?_
  intro p entry listed
  have cells : (ws.useProject cell).2.project p
      = if p.index = ws.projects.size then cell else ws.project p :=
    project_push ws cell p
  rw [cells] at listed
  -- The new project holds no config yet.
  by_cases new : p.index = ws.projects.size
  · rw [if_pos new, empty] at listed
    cases listed
  · rw [if_neg new] at listed
    exact h.held p entry listed

/-- A new project without configs keeps the workspace sound. -/
theorem Sound.useProject (h : ws.Sound) {cell : ProjectCell} (empty : cell.configs = []) :
    (ws.useProject cell).2.Sound :=
  h.congr rfl rfl (h.grounded.useProject empty).held

/-! ## Configs -/

/-- An unread config that none imports extends the workspace and stands on known ground. -/
theorem Grounded.newConfig (h : ws.Grounded) (cell : ConfigCell) (unread : cell.contents = none)
    (root : cell.chain = []) :
    ws.Extends (ws.newConfig cell).2 ∧ (ws.newConfig cell).2.Grounded := by
  have cells := config_newConfig ws cell
  have size : (ws.newConfig cell).2.configs.size = ws.configs.size + 1 := Array.size_push _
  have ext : ws.Extends (ws.newConfig cell).2 := by
    refine ⟨rfl, by omega, ?_⟩
    intro other known
    have old : other.index ≠ ws.configs.size := Nat.ne_of_lt known
    rw [cells, if_neg old]
    exact .refl _
  -- The new config has not been read.
  have before : ∀ id c, ((ws.newConfig cell).2.config id).contents = some c →
      (ws.config id).contents = some c := by
    intro id c read
    rw [cells] at read
    by_cases new : id.index = ws.configs.size
    · rw [if_pos new, unread] at read
      cases read
    · rwa [if_neg new] at read
  refine ⟨ext, h.of_extends ext
    ⟨?_, ?_, fun id c read => h.documents id c (before id c read)⟩⟩
  · intro id
    rw [cells]
    by_cases new : id.index = ws.configs.size
    · rw [if_pos new, root]
      exact List.nodup_singleton _
    · rw [if_neg new]
      exact h.chains id
  · intro id c read t imported
    obtain ⟨larger, known, origin⟩ := h.imports id c (before id c read) t imported
    exact ⟨larger, ext.imports known origin⟩

/-- A config that is unread and imported by none keeps the workspace sound. -/
theorem Sound.newConfig (h : ws.Sound) (cell : ConfigCell) (unread : cell.contents = none)
    (root : cell.chain = []) :
    ws.Extends (ws.newConfig cell).2 ∧ (ws.newConfig cell).2.Sound := by
  obtain ⟨ext, grounded⟩ := h.grounded.newConfig cell unread root
  exact ⟨ext, h.of_extends ext grounded.toWired⟩

/-- A config entered by hand or by a locator stands on known ground. -/
theorem Grounded.insertConfig (h : ws.Grounded) {p : ProjectId} {name : String}
    {origin : ConfigOrigin} (own : origin.isImported = false) {id : ConfigId}
    (done : ws.insertConfig p name origin = .ok (id, ws')) : ws'.Grounded := by
  obtain ⟨-, -, rfl⟩ := eq_of_insertConfig done
  -- The config is made first, and then held by its project.
  have cells := config_newConfig ws { name, origin, project := p }
  obtain ⟨-, grounded⟩ := h.newConfig { name, origin, project := p } rfl rfl
  refine grounded.congr rfl ?_
  intro q entry listed
  rcases project_updateProject_cases _ p q (fun cell =>
    { cell with configs := cell.configs ++ [(name, (⟨ws.configs.size⟩ : ConfigId))] }) with
    same | ⟨rfl, changed⟩
  · exact grounded.held q entry (same ▸ listed)
  · have listed' := (congrArg ProjectCell.configs changed) ▸ listed
    rcases List.mem_append.1 listed' with old | new
    · exact grounded.held q entry old
    · cases List.mem_singleton.1 new
      refine ⟨?_, ?_⟩
      · show ws.configs.size < (ws.configs.push _).size
        rw [Array.size_push]
        exact Nat.lt_succ_self _
      · rw [cells, if_pos rfl]
        exact own

/-- A config entered by hand or by a locator keeps the workspace sound. -/
theorem Sound.insertConfig (h : ws.Sound) {p : ProjectId} {name : String} {origin : ConfigOrigin}
    (own : origin.isImported = false) {id : ConfigId}
    (done : ws.insertConfig p name origin = .ok (id, ws')) : ws'.Sound := by
  obtain ⟨-, -, rfl⟩ := eq_of_insertConfig done
  have grounded := h.grounded.insertConfig own done
  obtain ⟨-, sound⟩ := h.newConfig { name, origin, project := p } rfl rfl
  exact sound.congr rfl rfl grounded.held

section Several

variable {P : Workspace σ → Prop} {p : ProjectId} {locator : String}

/-- What is preserved by adding a config by hand is preserved by adding several. -/
theorem addConfigs_preserves (add : ∀ {ws ws' : Workspace σ} {name : String} {id : ConfigId},
    ws.addConfig p name = .ok (id, ws') → P ws → P ws') (names : List String) (h : P ws) :
    P (ws.addConfigs p names) := by
  induction names generalizing ws with
  | nil => exact h
  | cons name rest ih =>
    rw [addConfigs, List.foldl_cons]
    cases added : ws.addConfig p name with
    | ok result => exact ih (add added h)
    | error _ => exact ih h

/-- What is preserved by adding a located config is preserved by adding several. -/
theorem addDetected_preserves (add : ∀ {ws ws' : Workspace σ} {name : String} {id : ConfigId},
    ws.insertConfig p name (.detected locator) = .ok (id, ws') → P ws → P ws')
    (names : List String) (h : P ws) : P (ws.addDetected p locator names).2 := by
  induction names generalizing ws with
  | nil => exact h
  | cons name rest ih =>
    rw [addDetected]
    cases added : ws.insertConfig p name (.detected locator) with
    | ok result => exact ih (add added h)
    | error _ => exact ih h

/-- What is preserved by letting configs and sets go, and by forgetting which sets were located, is
preserved by letting go of all that a locator contributed. -/
theorem removeDetected_preserves
    (configs : ∀ {ws : Workspace σ} names, P ws → P (ws.removeConfigs p names))
    (forget : ∀ {ws : Workspace σ}, P ws → P (ws.updateProject p fun cell =>
      { cell with locatedSets := Keyed.erase Prod.fst locator cell.locatedSets }))
    (sets : ∀ {ws : Workspace σ} name, P ws → P (ws.removeSet p name).2) (h : P ws) :
    P (ws.removeDetected p locator) := by
  have all : ∀ (names : List String) {ws : Workspace σ}, P ws →
      P (names.foldl (fun ws name => (ws.removeSet p name).2) ws) := by
    intro names
    induction names with
    | nil => exact id
    | cons name rest ih => exact fun h => ih (sets name h)
  exact all _ (forget (configs _ h))

end Several

theorem Sound.addConfigs (h : ws.Sound) (p : ProjectId) (names : List String) :
    (ws.addConfigs p names).Sound :=
  addConfigs_preserves (fun added sound => sound.insertConfig rfl added) names h

theorem Sound.addDetected (h : ws.Sound) (p : ProjectId) (locator : String)
    (names : List String) : (ws.addDetected p locator names).2.Sound :=
  addDetected_preserves (fun added sound => sound.insertConfig rfl added) names h

/-- Dropping a name from several sets keeps the workspace sound. -/
theorem Sound.removeMembers (h : ws.Sound) (sets : List SetId) (name : String) :
    (sets.foldl (fun ws set => (ws.removeMember set name).2) ws).Sound := by
  induction sets generalizing ws with
  | nil => exact h
  | cons set rest ih => exact ih ((safe_removeMember ws set name).sound h)

/-- Removing a config keeps the workspace sound, since every set that held its name forgets its
table. -/
theorem Sound.removeConfig (h : ws.Sound) (p : ProjectId) (name : String) :
    (ws.removeConfig p name).2.Sound := by
  unfold Workspace.removeConfig
  split
  · refine Sound.removeMembers (h.updateProject p ?_) _ name
    intro cell entry listed
    exact (List.mem_filter.1 listed).1
  · exact h

theorem Sound.removeConfigs (h : ws.Sound) (p : ProjectId) (names : List String) :
    (ws.removeConfigs p names).Sound := by
  induction names generalizing ws with
  | nil => exact h
  | cons name rest ih => exact ih (h.removeConfig p name)

/-- An exchange of detected configs keeps the workspace sound. -/
theorem Sound.replaceDetected (h : ws.Sound) (p : ProjectId) (locator : String)
    (names : List String) : (ws.replaceDetected p locator names).2.Sound :=
  (h.removeConfigs p _).addDetected p locator names

/-! ## Sets -/

/-- A new set is unmerged, so it keeps the workspace sound. -/
theorem Sound.newSet (h : ws.Sound) (cell : SetCell) (unmerged : cell.merged = none) :
    (ws.newSet cell).2.Sound where
  toWired := h.toWired.congr rfl
  held := h.held
  merged := by
    intro id m merged
    have cells := set_newSet ws cell id
    by_cases new : id.index = ws.sets.size
    · rw [cells, if_pos new, unmerged] at merged
      cases merged
    · rw [if_neg new] at cells
      rw [cells] at merged
      exact (h.merged id m merged).congr rfl (by rw [cells])

theorem Sound.addSet (h : ws.Sound) {p : ProjectId} {name : String} {id : SetId}
    (done : ws.addSet p name = .ok (id, ws')) : ws'.Sound := by
  obtain ⟨-, -, rfl⟩ := eq_of_addSet done
  have sound := h.newSet { name, project := p } rfl
  exact sound.updateProject p fun _ _ listed => listed

/-- The set of a locator keeps the workspace sound. -/
theorem Sound.addLocatedSet (h : ws.Sound) {p : ProjectId} {locator name : String} {id : SetId}
    (done : ws.addLocatedSet p locator name = .ok (id, ws')) : ws'.Sound := by
  obtain ⟨added, first, rfl⟩ := eq_of_addLocatedSet done
  exact (h.addSet first).updateProject p fun _ _ listed => listed

theorem Sound.removeSet (h : ws.Sound) (p : ProjectId) (name : String) :
    (ws.removeSet p name).2.Sound :=
  h.updateProject p fun _ _ => id

/-- Removing what a locator found keeps the workspace sound. -/
theorem Sound.removeDetected (h : ws.Sound) (p : ProjectId) (locator : String) :
    (ws.removeDetected p locator).Sound :=
  removeDetected_preserves (fun names sound => sound.removeConfigs p names)
    (fun sound => sound.updateProject p fun _ _ => id) (fun name sound => sound.removeSet p name) h

/-! ## The model -/

/-- A project that joins the model keeps the workspace sound. -/
theorem Sound.addProject (h : ws.Sound) {p : ProjectId} (done : ws.addProject p = .ok ws') :
    ws'.Sound := by
  obtain ⟨-, -, rfl⟩ := eq_of_addProject done
  have attached : (ws.updateProject p fun cell => { cell with isAttached := true }).Sound :=
    h.updateProject p fun _ _ => id
  exact attached.congr rfl rfl attached.held

/-- A project that leaves the model keeps the workspace sound. -/
theorem Sound.removeProject (h : ws.Sound) {name : String} {p : ProjectId}
    (done : ws.removeProject name = .ok (p, ws')) : ws'.Sound := by
  obtain ⟨-, -, rfl⟩ := eq_of_removeProject done
  exact h.congr rfl rfl h.held

/-! ## Steps -/

/-- A change of projects, of what they hold, or of the model. -/
inductive ManagementStep : Workspace σ → Workspace σ → Prop
  | useProject (ws : Workspace σ) (name : String) (reader : DocumentReader)
      (namespaces : Namespaces) (settings : ProjectSettings) :
      ManagementStep ws (ws.useProject { name, reader, namespaces, settings }).2
  | dropProject (ws : Workspace σ) (name : String) : ManagementStep ws (ws.dropProject name).2
  | addConfig {ws ws' : Workspace σ} {p : ProjectId} {name : String} {id : ConfigId}
      (done : ws.addConfig p name = .ok (id, ws')) : ManagementStep ws ws'
  | addConfigs (ws : Workspace σ) (p : ProjectId) (names : List String) :
      ManagementStep ws (ws.addConfigs p names)
  | removeConfig (ws : Workspace σ) (p : ProjectId) (name : String) :
      ManagementStep ws (ws.removeConfig p name).2
  | replaceDetected (ws : Workspace σ) (p : ProjectId) (locator : String)
      (names : List String) : ManagementStep ws (ws.replaceDetected p locator names).2
  | removeDetected (ws : Workspace σ) (p : ProjectId) (locator : String) :
      ManagementStep ws (ws.removeDetected p locator)
  | addSet {ws ws' : Workspace σ} {p : ProjectId} {name : String} {id : SetId}
      (done : ws.addSet p name = .ok (id, ws')) : ManagementStep ws ws'
  | addLocatedSet {ws ws' : Workspace σ} {p : ProjectId} {locator name : String} {id : SetId}
      (done : ws.addLocatedSet p locator name = .ok (id, ws')) : ManagementStep ws ws'
  | removeSet (ws : Workspace σ) (p : ProjectId) (name : String) :
      ManagementStep ws (ws.removeSet p name).2
  | openModel (ws : Workspace σ) : ManagementStep ws ws.openModel
  | closeModel (ws : Workspace σ) : ManagementStep ws ws.closeModel
  | addProject {ws ws' : Workspace σ} {p : ProjectId} (done : ws.addProject p = .ok ws') :
      ManagementStep ws ws'
  | removeProject {ws ws' : Workspace σ} {name : String} {p : ProjectId}
      (done : ws.removeProject name = .ok (p, ws')) : ManagementStep ws ws'
  | subscribe (ws : Workspace σ) : ManagementStep ws { ws with model := ws.model.subscribe.2 }
  | unsubscribe (ws : Workspace σ) (listener : ListenerId) :
      ManagementStep ws { ws with model := (ws.model.unsubscribe listener).2 }

/-- Management preserves the invariant. -/
theorem ManagementStep.sound (step : ManagementStep ws ws') (h : ws.Sound) : ws'.Sound := by
  cases step with
  | useProject => exact h.useProject rfl
  | dropProject name => exact h.withModel _ ws.model
  | addConfig done => exact h.insertConfig rfl done
  | addConfigs p names => exact h.addConfigs p names
  | removeConfig p name => exact h.removeConfig p name
  | replaceDetected p locator names => exact h.replaceDetected p locator names
  | removeDetected p locator => exact h.removeDetected p locator
  | addSet done => exact h.addSet done
  | addLocatedSet done => exact h.addLocatedSet done
  | removeSet p name => exact h.removeSet p name
  | openModel => exact h.withModel ws.inUse _
  | closeModel => exact h.withModel ws.inUse _
  | addProject done => exact h.addProject done
  | removeProject done => exact h.removeProject done
  | subscribe => exact h.withModel ws.inUse _
  | unsubscribe => exact h.withModel ws.inUse _

end BeanWiring.Workspace
