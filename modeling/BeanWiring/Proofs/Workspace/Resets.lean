/-
# Resets

Reloading a config of the model forgets what was read of it, and the merged views of two lists of
sets: of those that were once merged from it, and of those that have it as a member.  Listeners are
told of the config and of the second list.

Main statements:

* `reloadInModel_eq` : what a reload does, all at once;
* `model_refreshConfigs` : refreshing tells of each config that has changed what reloading it would
  tell.
-/
import BeanWiring.Proofs.Workspace.Refreshing

namespace BeanWiring

/-! ## Telling events -/

/-- Whether an event is about what was read or merged, and not about the list of projects. -/
def ModelEvent.isReset : ModelEvent → Bool
  | configReset _ _ | setReset _ _ => true
  | _ => false

namespace Model

/-- Tells all listeners of events, one after the other. -/
def tell (m : Model) (events : List ModelEvent) : Model :=
  events.foldl fire m

/-- Events told in two goes are told in one. -/
theorem tell_append (m : Model) (events more : List ModelEvent) :
    m.tell (events ++ more) = (m.tell events).tell more :=
  List.foldl_append

/-- Events are delivered in order, each of them once to every listener. -/
theorem tell_eq (m : Model) (events : List ModelEvent) :
    m.tell events = { m with
      deliveries := m.deliveries ++ events.flatMap fun event => m.listeners.map (·, event) } := by
  induction events generalizing m with
  | nil => simp [tell]
  | cons event rest ih =>
    have step : m.tell (event :: rest) = (m.fire event).tell rest := rfl
    rw [step, ih, fire]
    simp

end Model

/-- A set without its merged view. -/
def SetCell.unmerged (cell : SetCell) : SetCell := { cell with merged := none }

namespace Workspace

variable {σ : Type} {ws ws' : Workspace σ}

/-! ## Forgetting merged views -/

/-- The reset of a set takes the merged view from it, and nothing from the others. -/
theorem set_resetSet (ws : Workspace σ) (id s : SetId) :
    (ws.resetSet id).set s = if s = id then (ws.set s).unmerged else ws.set s := by
  by_cases known : ws.HasSet id
  · rw [resetSet, set_updateSet ws id s _ known]
    by_cases same : s = id
    · rw [if_pos same, if_pos same, same, SetCell.unmerged]
    · rw [if_neg same, if_neg same]
  · -- Of a set that was never made there is nothing to forget.
    have nothing : (ws.set id).unmerged = ws.set id := by
      rw [set, Array.getElem?_eq_none (Nat.le_of_not_lt known)]
      rfl
    rcases set_updateSet_cases ws id s (fun cell => { cell with merged := none }) with
      same | ⟨rfl, changed⟩
    · by_cases it : s = id
      · subst it
        rw [if_pos rfl]
        exact same.trans nothing.symm
      · rw [if_neg it]
        exact same
    · rw [if_pos rfl]
      exact changed

/-- Of several sets that are reset, each loses its merged view. -/
theorem set_resetSets (ws : Workspace σ) (ids : List SetId) (s : SetId) :
    (ws.resetSets ids).set s = if s ∈ ids then (ws.set s).unmerged else ws.set s := by
  induction ids generalizing ws with
  | nil => rfl
  | cons id rest ih =>
    have step : ws.resetSets (id :: rest) = (ws.resetSet id).resetSets rest := rfl
    rw [step, ih, set_resetSet]
    by_cases first : s = id
    · -- There is nothing to forget a second time.
      rw [if_pos first, if_pos (List.mem_cons.2 (.inl first)), SetCell.unmerged, SetCell.unmerged,
        ite_self]
    · rw [if_neg first]
      simp only [List.mem_cons, first, false_or]

/-- Sets may be reset in two goes. -/
theorem resetSets_append (ws : Workspace σ) (ids more : List SetId) :
    ws.resetSets (ids ++ more) = (ws.resetSets ids).resetSets more :=
  List.foldl_append

/-- A reset of sets and a change of the model can change places. -/
theorem resetSets_withModel (ws : Workspace σ) (model : Model) (ids : List SetId) :
    ({ ws with model } : Workspace σ).resetSets ids = { ws.resetSets ids with model } := by
  induction ids generalizing ws with
  | nil => rfl
  | cons id rest ih => exact ih (ws.resetSet id)

/-! ## What is told of a reload -/

/-- The event that a set of a project was reset. -/
def setReset (ws : Workspace σ) (entry : ProjectId × SetId) : ModelEvent :=
  .setReset (ws.project entry.1).name (ws.set entry.2).name

/-- What is told when a config of a project is reloaded. -/
def resetEvents (ws : Workspace σ) (p : ProjectId) (id : ConfigId) : List ModelEvent :=
  .configReset (ws.project p).name (ws.config id).name ::
    (ws.modelSetsWith p (ws.config id).name).map ws.setReset

/-- The events of a reload are resets. -/
theorem isReset_of_mem_resetEvents {p : ProjectId} {id : ConfigId} {event : ModelEvent}
    (told : event ∈ ws.resetEvents p id) : event.isReset = true := by
  rcases List.mem_cons.1 told with rfl | told
  · rfl
  · obtain ⟨entry, -, rfl⟩ := List.mem_map.1 told
    rfl

/-- What there is to tell of reloads is the same in both. -/
structure TellsAlike (ws ws' : Workspace σ) : Prop where
  inModel : ws'.model.projects = ws.model.projects
  configs : ∀ id, (ws'.config id).name = (ws.config id).name
  projects : ∀ p, (ws'.project p).name = (ws.project p).name ∧
    (ws'.project p).sets = (ws.project p).sets
  sets : ∀ s, (ws'.set s).name = (ws.set s).name ∧ (ws'.set s).settings = (ws.set s).settings

namespace TellsAlike

/-- Workspaces that tell alike name sets alike in their events. -/
theorem setReset (h : TellsAlike ws ws') : ws'.setReset = ws.setReset := by
  funext entry
  rw [Workspace.setReset, (h.projects entry.1).1, (h.sets entry.2).1, Workspace.setReset]

/-- Workspaces that tell alike know the same sets of the model with a config. -/
theorem modelSetsWith (h : TellsAlike ws ws') (p : ProjectId) (config : String) :
    ws'.modelSetsWith p config = ws.modelSetsWith p config := by
  have names : ∀ q, (ws'.project q).name = (ws.project q).name := fun q => (h.projects q).1
  have setsOf : ∀ q, ws'.setsOf q = ws.setsOf q := by
    intro q
    rw [Workspace.setsOf, (h.projects q).2, Workspace.setsOf]
  have hasMember : ∀ s name, ws'.hasMember s name = ws.hasMember s name := by
    intro s name
    rw [Workspace.hasMember, (h.sets s).2, Workspace.hasMember]
  simp only [Workspace.modelSetsWith, h.inModel, names, setsOf, hasMember]

/-- Workspaces that tell alike fire the same events for a reload. -/
theorem resetEvents (h : TellsAlike ws ws') : ws'.resetEvents = ws.resetEvents := by
  funext p id
  rw [Workspace.resetEvents, (h.projects p).1, h.configs, h.modelSetsWith, h.setReset,
    Workspace.resetEvents]

end TellsAlike

/-- The reset of sets does not change what is told. -/
theorem tellsAlike_resetSets (ws : Workspace σ) (ids : List SetId) :
    TellsAlike ws (ws.resetSets ids) where
  inModel := by rw [resetSets_rest]
  configs := fun id => by rw [config_congr (configs_resetSets ws ids)]
  projects := by
    intro p
    rw [project, projects_resetSets]
    exact ⟨rfl, rfl⟩
  sets := by
    intro s
    rw [set_resetSets]
    split
    · exact ⟨rfl, rfl⟩
    · exact ⟨rfl, rfl⟩

/-- Sets are reset and told of, one after the other. -/
theorem resetSetOfs_eq (ws : Workspace σ) (entries : List (ProjectId × SetId)) :
    entries.foldl resetSetOf ws = { ws.resetSets (entries.map Prod.snd) with
      model := ws.model.tell (entries.map ws.setReset) } := by
  induction entries generalizing ws with
  | nil => rfl
  | cons entry rest ih =>
    have reset : TellsAlike ws (ws.resetSetOf entry) := by
      obtain ⟨inModel, configs, projects, sets⟩ := tellsAlike_resetSets ws [entry.2]
      exact ⟨inModel, configs, projects, sets⟩
    rw [List.foldl_cons, ih, reset.setReset]
    exact congrArg (fun after : Workspace σ => { after with
      model := (ws.model.fire (ws.setReset entry)).tell (rest.map ws.setReset) })
      (resetSets_withModel (ws.resetSet entry.2) _ _)

/-- Forgetting what was read and merged changes nothing that is told of. -/
theorem tellsAlike_forget (ws : Workspace σ) (id : ConfigId) (ids : List SetId) :
    TellsAlike ws
      ((ws.updateConfig id fun cell => { cell with contents := none }).resetSets ids) := by
  let forgotten := ws.updateConfig id fun cell => { cell with contents := none }
  obtain ⟨inModel, configs, projects, sets⟩ := tellsAlike_resetSets forgotten ids
  refine ⟨inModel, fun other => (configs other).trans ?_, projects, sets⟩
  rcases config_updateConfig_cases ws id other (fun cell => { cell with contents := none }) with
    same | ⟨rfl, changed⟩
  · exact congrArg ConfigCell.name same
  · exact (congrArg ConfigCell.name changed :)

/-- What a reload does: it forgets the config, and then the merged views of the sets that were
merged from it and of those that have it, and the latter are told of. -/
theorem reloadInModel_eq (ws : Workspace σ) (p : ProjectId) (id : ConfigId) :
    ws.reloadInModel p id =
      { (ws.updateConfig id fun cell => { cell with contents := none }).resetSets
          ((ws.config id).dependents ++ (ws.modelSetsWith p (ws.config id).name).map Prod.snd) with
        model := ws.model.tell (ws.resetEvents p id) } := by
  let reset := ModelEvent.configReset (ws.project p).name (ws.config id).name
  have alike : TellsAlike ws ((ws.reloadConfig id).fire reset) := by
    obtain ⟨inModel, configs, projects, sets⟩ := tellsAlike_forget ws id (ws.config id).dependents
    exact ⟨inModel, configs, projects, sets⟩
  have model : (ws.reloadConfig id).model = ws.model := by
    rw [reloadConfig, resetSets_rest]
    rfl
  have steps : ws.reloadInModel p id
      = (ws.modelSetsWith p (ws.config id).name).foldl resetSetOf
          ((ws.reloadConfig id).fire reset) := by
    rw [reloadInModel, alike.modelSetsWith]
  rw [steps, resetSetOfs_eq, alike.setReset, resetSets_append]
  refine congrArg₂ (fun (after : Workspace σ) (model : Model) => { after with model })
    (resetSets_withModel _ _ _) ?_
  rw [fire, model]
  rfl

/-- A reload does not change what is told next time. -/
theorem tellsAlike_reloadInModel (ws : Workspace σ) (p : ProjectId) (id : ConfigId) :
    TellsAlike ws (ws.reloadInModel p id) := by
  rw [reloadInModel_eq, Model.tell_eq]
  obtain ⟨-, configs, projects, sets⟩ := tellsAlike_forget ws id
    ((ws.config id).dependents ++ (ws.modelSetsWith p (ws.config id).name).map Prod.snd)
  exact ⟨rfl, configs, projects, sets⟩

/-- A reload in the model changes the model by its events only. -/
theorem model_reloadInModel (ws : Workspace σ) (p : ProjectId) (id : ConfigId) :
    (ws.reloadInModel p id).model = ws.model.tell (ws.resetEvents p id) := by
  rw [reloadInModel_eq]

/-- The merged views that a reload forgets. -/
theorem set_reloadInModel (ws : Workspace σ) (p : ProjectId) (id : ConfigId) (s : SetId) :
    (ws.reloadInModel p id).set s
      = if s ∈ (ws.config id).dependents ++
            (ws.modelSetsWith p (ws.config id).name).map Prod.snd
        then (ws.set s).unmerged else ws.set s := by
  rw [reloadInModel_eq]
  exact set_resetSets (ws.updateConfig id fun cell => { cell with contents := none }) _ s

/-- Other configs stay as they are. -/
theorem config_reloadInModel_of_ne (ws : Workspace σ) (p : ProjectId) {id other : ConfigId}
    (differ : other ≠ id) : (ws.reloadInModel p id).config other = ws.config other := by
  have configs : (ws.reloadInModel p id).configs = (ws.reloadConfig id).configs :=
    configs_resetSetOfs _ _
  rw [config_congr configs, config_reloadConfig_of_ne differ]

/-! ## Refreshing -/

section Refresh

variable [DocumentSource σ]

/-- A reload changes nothing about whether another config has changed. -/
theorem hasChanged_reloadInModel_of_ne (sound : ws.Sound) (p : ProjectId) {id : ConfigId}
    (own : (ws.config id).origin.isImported = false) {j : ConfigId} (differ : j ≠ id) :
    (ws.reloadInModel p id).hasChanged j = ws.hasChanged j := by
  have cells := fun {k : ConfigId} (other : k ≠ id) => config_reloadInModel_of_ne ws p other
  -- The tree of another config does not have the one that is reloaded, which no import made.
  have apart : ∀ {k}, ws.Includes j k → k ≠ id ∧ (ws.reloadInModel p id).Includes j k := by
    intro k includes
    induction includes with
    | refl => exact ⟨differ, .refl⟩
    | @tail a b _ step ih =>
      obtain ⟨c, read, imported⟩ := step
      exact ⟨sound.ne_of_imported read imported own,
        ih.2.tail ⟨c, (cells ih.1).symm ▸ read, imported⟩⟩
  have unchanged : (ws.reloadInModel p id).hasChanged j = false → ws.hasChanged j = false := by
    rw [hasChanged_eq_false_iff ((safe_reloadInModel p own).sound sound).toWired,
      hasChanged_eq_false_iff sound.toWired]
    intro current k includes c read
    obtain ⟨other, there⟩ := apart includes
    have now := current k there c ((cells other).symm ▸ read)
    rw [IsCurrent, (changes_reloadInModel ws p id).source, cells other] at now
    exact now
  cases before : ws.hasChanged j with
  | false => exact hasChanged_reloadInModel sound p own (.inl before)
  | true =>
    by_contra after
    rw [unchanged (Bool.eq_false_iff.2 after)] at before
    cases before

/-- Refreshing tells of the configs that have changed, and of each what reloading it would tell. -/
theorem model_refreshConfigs (sound : ws.Sound) (entries : List (ProjectId × ConfigId))
    (names : List String)
    (own : ∀ entry ∈ entries,
      ws.HasConfig entry.2 ∧ (ws.config entry.2).origin.isImported = false)
    (once : (entries.map Prod.snd).Nodup) :
    (entries.foldl refreshConfig (names, ws)).2.model
      = ws.model.tell ((entries.filter fun entry => ws.hasChanged entry.2).flatMap fun entry =>
          ws.resetEvents entry.1 entry.2) := by
  induction entries generalizing ws names with
  | nil => rfl
  | cons entry rest ih =>
    rw [List.map_cons, List.nodup_cons] at once
    rw [List.foldl_cons, refreshConfig, List.filter_cons]
    by_cases changed : ws.hasChanged entry.2 = true
    · have own' := (own entry List.mem_cons_self).2
      have first := safe_reloadInModel entry.1 own'
      have later : rest.filter (fun other => (ws.reloadInModel entry.1 entry.2).hasChanged other.2)
          = rest.filter fun other => ws.hasChanged other.2 := by
        refine List.filter_congr fun other listed => ?_
        refine hasChanged_reloadInModel_of_ne sound entry.1 own' ?_
        rintro same
        exact once.1 (same ▸ List.mem_map_of_mem listed)
      rw [if_pos changed, if_pos changed]
      dsimp only
      rw [ih (first.sound sound) _ (fun other listed =>
        first.forgets.own (own other (List.mem_cons_of_mem entry listed))) once.2, later,
        (tellsAlike_reloadInModel ws entry.1 entry.2).resetEvents, model_reloadInModel,
        List.flatMap_cons, Model.tell_append]
    · rw [if_neg changed, if_neg changed]
      exact ih sound names (fun other listed => own other (List.mem_cons_of_mem entry listed))
        once.2

end Refresh

end Workspace

end BeanWiring
