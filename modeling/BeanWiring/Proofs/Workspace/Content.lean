/-
# Changes of content and policy

What reloading, switching imports and the settings of a set do to a workspace.  None of them
touches the projects and what they hold, and sets at most forget their merged views; so a set
that is merged afterwards was merged before, from the same members.

Main statements: `Forgets`, and for each operation that it preserves the invariant and only
forgets.
-/
import BeanWiring.Proofs.Workspace.Invariant
import BeanWiring.Workspace.Model

namespace BeanWiring.Workspace

variable {σ : Type} {ws ws' ws'' : Workspace σ}

/-! ## Forgetting -/

/-- Projects hold what they held, configs are the configs they were, and sets have at most
forgotten their merged views. -/
structure Forgets (ws ws' : Workspace σ) : Prop where
  inUse : ws'.inUse = ws.inUse
  inModel : ws'.model.projects = ws.model.projects
  projects : ∀ p, (ws'.project p).name = (ws.project p).name ∧
    (ws'.project p).configs = (ws.project p).configs ∧
    (ws'.project p).isAttached = (ws.project p).isAttached
  origins : ∀ id, ws.HasConfig id → (ws'.config id).origin = (ws.config id).origin
  size_le : ws.configs.size ≤ ws'.configs.size
  sets : ∀ id m, (ws'.set id).merged = some m → ws'.set id = ws.set id

namespace Forgets

theorem refl (ws : Workspace σ) : Forgets ws ws :=
  ⟨rfl, rfl, fun _ => ⟨rfl, rfl, rfl⟩, fun _ _ => rfl, Nat.le_refl _, fun _ _ _ => rfl⟩

/-- Forgetting loses no config. -/
theorem hasConfig (h : Forgets ws ws') {id : ConfigId} (known : ws.HasConfig id) :
    ws'.HasConfig id :=
  known.of_size_le h.size_le

/-- Configs that no import made are still there. -/
theorem own (h : Forgets ws ws') {id : ConfigId}
    (own : ws.HasConfig id ∧ (ws.config id).origin.isImported = false) :
    ws'.HasConfig id ∧ (ws'.config id).origin.isImported = false :=
  ⟨h.hasConfig own.1, h.origins id own.1 ▸ own.2⟩

theorem trans (h : Forgets ws ws') (h' : Forgets ws' ws'') : Forgets ws ws'' where
  inUse := h'.inUse.trans h.inUse
  inModel := h'.inModel.trans h.inModel
  projects := by
    intro p
    obtain ⟨name, configs, attached⟩ := h.projects p
    obtain ⟨name', configs', attached'⟩ := h'.projects p
    exact ⟨name'.trans name, configs'.trans configs, attached'.trans attached⟩
  origins := fun id known => (h'.origins id (h.hasConfig known)).trans (h.origins id known)
  size_le := Nat.le_trans h.size_le h'.size_le
  sets := by
    intro id m merged
    have same := h'.sets id m merged
    rw [same] at merged ⊢
    exact h.sets id m merged

/-- Names stand for the configs that they stood for. -/
theorem memberConfigs (h : Forgets ws ws') (cell : SetCell) :
    ws'.memberConfigs cell = ws.memberConfigs cell := by
  have plain : ∀ p name, ws'.configOf? p name = ws.configOf? p name := by
    intro p name
    rw [configOf?, (h.projects p).2.1, configOf?]
  have external : ∀ name, ws'.externalConfig? name = ws.externalConfig? name := by
    intro name
    simp only [externalConfig?, plain, h.inModel]
  have resolved : ws'.resolveConfig? cell.project = ws.resolveConfig? cell.project := by
    funext name
    obtain ⟨projectName, -, attached⟩ := h.projects cell.project
    simp only [resolveConfig?, plain, external, projectName, attached]
  have live : ws'.isLive cell.project = ws.isLive cell.project := by
    rw [isLive, h.inUse, h.inModel, isLive]
  rw [Workspace.memberConfigs, live, resolved, Workspace.memberConfigs]

end Forgets

/-- An extension of the workspace forgets nothing. -/
theorem Extends.forgets (h : ws.Extends ws') : Forgets ws ws' where
  inUse := by rw [h.rest]
  inModel := by rw [h.rest]
  projects := by
    intro p
    rw [h.project]
    exact ⟨rfl, rfl, rfl⟩
  origins := fun id known => (h.cells id known).origin
  size_le := h.size_le
  sets := fun id _ _ => h.set id

/-! ## Operations -/

/-- An operation preserves the invariant, and at most forgets. -/
structure Safe (ws ws' : Workspace σ) : Prop where
  sound : ws.Sound → ws'.Sound
  forgets : Forgets ws ws'

namespace Safe

theorem refl (ws : Workspace σ) : Safe ws ws := ⟨id, .refl ws⟩

theorem trans (h : Safe ws ws') (h' : Safe ws' ws'') : Safe ws ws'' :=
  ⟨fun s => h'.sound (h.sound s), h.forgets.trans h'.forgets⟩

end Safe

/-- What is done to the documents or told to listeners does no harm. -/
theorem safe_of_same (configs : ws'.configs = ws.configs) (sets : ws'.sets = ws.sets)
    (projects : ws'.projects = ws.projects) (inUse : ws'.inUse = ws.inUse)
    (inModel : ws'.model.projects = ws.model.projects) : Safe ws ws' where
  sound := by
    intro h
    refine h.congr configs sets ?_
    intro p entry listed
    rw [project, projects] at listed
    exact h.held p entry listed
  forgets := by
    refine ⟨inUse, inModel, ?_, ?_, Nat.le_of_eq (congrArg Array.size configs).symm, ?_⟩
    · intro p
      rw [project, projects]
      exact ⟨rfl, rfl, rfl⟩
    · intro id _
      rw [config_congr configs]
    · intro id _ _
      exact set_congr sets id

/-- An event is safe: it touches neither tables nor trees. -/
theorem safe_fire (ws : Workspace σ) (event : ModelEvent) : Safe ws (ws.fire event) :=
  safe_of_same rfl rfl rfl rfl rfl

/-- An edit of a set is safe if the set forgets its table on the way. -/
theorem safe_updateSet (ws : Workspace σ) (id : SetId) {f : SetCell → SetCell}
    (forgets : ∀ cell, (f cell).merged = none) : Safe ws (ws.updateSet id f) where
  sound := fun h => h.updateSet id forgets
  forgets := by
    refine ⟨rfl, rfl, fun _ => ⟨rfl, rfl, rfl⟩, fun _ _ => rfl, Nat.le_refl _, ?_⟩
    intro other m merged
    exact (merged_updateSet forgets merged).2

/-- The reset of a set is safe. -/
theorem safe_resetSet (ws : Workspace σ) (id : SetId) : Safe ws (ws.resetSet id) :=
  safe_updateSet ws id fun _ => rfl

/-- A change of the settings of a set is safe, since the set is reset with it. -/
theorem safe_changeSettings (ws : Workspace σ) (id : SetId) (f : SetSettings → SetSettings) :
    Safe ws (ws.changeSettings id f) :=
  safe_updateSet ws id fun _ => rfl

/-- A name that joins a set is safe: it resets the set unless it was there. -/
theorem safe_addMember (ws : Workspace σ) (id : SetId) (name : String) :
    Safe ws (ws.addMember id name).2 := by
  unfold addMember
  split
  · exact .refl ws
  · dsimp only
    exact safe_changeSettings ws id _

/-- A name that leaves a set is safe: it resets the set if it was there. -/
theorem safe_removeMember (ws : Workspace σ) (id : SetId) (name : String) :
    Safe ws (ws.removeMember id name).2 := by
  unfold removeMember
  split
  · dsimp only
    exact safe_changeSettings ws id _
  · exact .refl ws

/-- Switching imports for a project, before its configs are reloaded. -/
theorem safe_updateProject (ws : Workspace σ) (p : ProjectId) {f : ProjectCell → ProjectCell}
    (same : ∀ cell, (f cell).name = cell.name ∧ (f cell).configs = cell.configs ∧
      (f cell).isAttached = cell.isAttached) : Safe ws (ws.updateProject p f) := by
  have cells : ∀ q, ((ws.updateProject p f).project q).name = (ws.project q).name ∧
      ((ws.updateProject p f).project q).configs = (ws.project q).configs ∧
      ((ws.updateProject p f).project q).isAttached = (ws.project q).isAttached := by
    intro q
    rcases project_updateProject_cases ws p q f with unchanged | ⟨rfl, changed⟩
    · rw [unchanged]
      exact ⟨rfl, rfl, rfl⟩
    · rw [changed]
      exact same _
  refine ⟨?_, rfl, rfl, cells, fun _ _ => rfl, Nat.le_refl _, fun _ _ _ => rfl⟩
  intro h
  refine h.congr rfl rfl ?_
  intro q entry listed
  rw [(cells q).2.1] at listed
  exact h.held q entry listed

/-! ## Reloading -/

/-- Reloading any config at most forgets. -/
theorem forgets_reloadConfig (ws : Workspace σ) (id : ConfigId) :
    Forgets ws (ws.reloadConfig id) := by
  refine ⟨?_, ?_, ?_, ?_, Nat.le_of_eq (size_reloadConfig ws id).symm, ?_⟩
  · rw [reloadConfig, resetSets_rest]
    rfl
  · rw [reloadConfig, resetSets_rest]
    rfl
  · intro p
    rw [project, projects_reloadConfig]
    exact ⟨rfl, rfl, rfl⟩
  · intro other _
    rcases config_reloadConfig ws id other with same | ⟨rfl, new⟩
    · rw [same]
    · rw [new]
  · intro other m merged
    exact (merged_resetSets merged).2

/-- The reload of a config of its own is safe: its dependents are reset with it. -/
theorem safe_reloadConfig {id : ConfigId} (own : (ws.config id).origin.isImported = false) :
    Safe ws (ws.reloadConfig id) :=
  ⟨fun h => h.reloadConfig own, forgets_reloadConfig ws id⟩

/-- Configs that no import made are reloaded one after the other. -/
theorem safe_reloadConfigs (ids : List ConfigId)
    (own : ∀ id ∈ ids, ws.HasConfig id ∧ (ws.config id).origin.isImported = false) :
    Safe ws (ids.foldl reloadConfig ws) := by
  induction ids generalizing ws with
  | nil => exact .refl ws
  | cons id rest ih =>
    have first := safe_reloadConfig (own id List.mem_cons_self).2
    refine first.trans (ih ?_)
    intro other listed
    exact first.forgets.own (own other (List.mem_cons_of_mem id listed))

/-- The reset of several sets is safe. -/
theorem safe_resetSetOfs (entries : List (ProjectId × SetId)) :
    Safe ws (entries.foldl resetSetOf ws) := by
  induction entries generalizing ws with
  | nil => exact .refl ws
  | cons entry rest ih =>
    exact ((safe_resetSet ws entry.2).trans (safe_fire _ _)).trans ih

/-- The reload of a config of its own inside the model is safe. -/
theorem safe_reloadInModel (p : ProjectId) {id : ConfigId}
    (own : (ws.config id).origin.isImported = false) : Safe ws (ws.reloadInModel p id) := by
  unfold reloadInModel
  dsimp only
  exact ((safe_reloadConfig own).trans (safe_fire _ _)).trans (safe_resetSetOfs _)

/-- The config that a name stands for in the model is held by a project. -/
theorem held_of_findConfig? {name : String} {p : ProjectId} {id : ConfigId}
    (found : ws.findConfig? name = some (p, id)) :
    ∃ p, ∃ entry ∈ (ws.project p).configs, entry.2 = id := by
  unfold findConfig? at found
  split at found
  · simp only [externalConfig?, Option.bind_eq_bind, Option.bind_eq_some_iff] at found
    obtain ⟨⟨_, _⟩, _, p', _, c, found', same⟩ := found
    cases Option.some.inj same
    exact held_of_configOf? found'
  · obtain ⟨entry, -, found'⟩ := List.exists_of_findSome?_eq_some found
    obtain ⟨c, found'', same⟩ := Option.map_eq_some_iff.1 found'
    cases same
    exact held_of_configOf? found''

/-- The reload of a document by its name is safe. -/
theorem safe_reload {name : String} (h : ws.Grounded) (done : ws.reload name = .ok ws') :
    Safe ws ws' := by
  obtain ⟨p, id, found, rfl⟩ := eq_of_reload done
  obtain ⟨q, entry, listed, rfl⟩ := held_of_findConfig? found
  exact safe_reloadInModel p (h.held q entry listed).2

section Refresh

variable [DocumentSource σ]

/-- A round of refreshes over configs of their own is safe. -/
theorem safe_refreshConfigs (entries : List (ProjectId × ConfigId)) (names : List String)
    (own : ∀ entry ∈ entries,
      ws.HasConfig entry.2 ∧ (ws.config entry.2).origin.isImported = false) :
    Safe ws (entries.foldl refreshConfig (names, ws)).2 := by
  induction entries generalizing ws names with
  | nil => exact .refl ws
  | cons entry rest ih =>
    have later : ∀ {ws'}, Safe ws ws' → ∀ other ∈ rest,
        ws'.HasConfig other.2 ∧ (ws'.config other.2).origin.isImported = false := by
      intro ws' safe other listed
      exact safe.forgets.own (own other (List.mem_cons_of_mem entry listed))
    rw [List.foldl_cons, refreshConfig]
    by_cases changed : ws.hasChanged entry.2 = true
    · rw [if_pos changed]
      have first := safe_reloadInModel entry.1 (own entry List.mem_cons_self).2
      exact first.trans (ih _ (later first))
    · rw [if_neg changed]
      exact ih names (later (.refl ws))

/-- The refresh of a whole model is safe. -/
theorem safe_refresh (h : ws.Grounded) {names : List String}
    (done : ws.refresh = .ok (names, ws')) : Safe ws ws' := by
  unfold refresh at done
  split at done
  · cases done
  · have result := congrArg Prod.snd (Except.ok.inj done)
    dsimp only at result
    rw [← result]
    refine safe_refreshConfigs _ [] ?_
    rintro ⟨p, id⟩ listed
    obtain ⟨⟨_, q⟩, -, listed⟩ := List.mem_flatMap.1 listed
    obtain ⟨c, held, same⟩ := List.mem_map.1 listed
    cases same
    obtain ⟨entry, listed', rfl⟩ := List.mem_map.1 held
    exact h.held q entry listed'

end Refresh

/-- Switching the imports of a project is safe: every config of it is reloaded. -/
theorem safe_enableImports (h : ws.Grounded) (p : ProjectId) (enabled : Bool) :
    Safe ws (ws.enableImports p enabled) := by
  unfold enableImports
  split
  · exact .refl ws
  · dsimp only
    have switched := safe_updateProject ws p
      (f := fun cell => { cell with settings := { cell.settings with importsEnabled := enabled } })
      (fun _ => ⟨rfl, rfl, rfl⟩)
    refine switched.trans (safe_reloadConfigs _ ?_)
    intro id listed
    obtain ⟨entry, listed', rfl⟩ := List.mem_map.1 listed
    have held : entry ∈ (ws.project p).configs := (switched.forgets.projects p).2.1 ▸ listed'
    exact switched.forgets.own (h.held p entry held)

end BeanWiring.Workspace
