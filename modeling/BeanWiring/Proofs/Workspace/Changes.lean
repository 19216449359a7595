/-
# Steps in small changes

Everything that is done to a workspace is made of a few kinds of change: a config is read, is noted
as the member of a set, is forgotten or is added; a set is merged from configs that it is noted
with, or forgets; a project comes into use, changes, or is switched; or something else changes.
What each of these changes preserves, every step preserves, and reloading what was imported does so,
too.

Main statements:

* `ContentStep.changes`, `ManagementStep.changes` : how steps are made of changes;
* `FreelyReachable.of_changes` : how to show that something holds of every workspace that can come
  about;
* `Change.read_or_sheds` : a change that is not a first reading leaves configs what they are, and at
  most forgets what was read.
-/
import BeanWiring.Proofs.Workspace.Coherence
import BeanWiring.Proofs.Workspace.Foresight

namespace BeanWiring.Workspace

variable {σ : Type} [DocumentSource σ] {ws ws' : Workspace σ}

/-! ## Changes -/

/-- One change.  Documents stay as they are. -/
inductive Change : Workspace σ → Workspace σ → Prop
  /-- Of what is in use, or of the model. -/
  | elsewhere (ws : Workspace σ) (inUse : List (String × ProjectId)) (model : Model) :
      Change ws { ws with inUse, model }
  /-- Of sets, and those that are merged stay as they were. -/
  | sets (ws : Workspace σ) (sets : Array SetCell)
      (kept : ∀ id m, (({ ws with sets } : Workspace σ).set id).merged = some m →
        ({ ws with sets } : Workspace σ).set id = ws.set id) : Change ws { ws with sets }
  /-- Of a set that is merged from trees of configs which know it. -/
  | note (ws : Workspace σ) (set : SetId) (m : MergedSet ConfigId)
      (noted : ∀ c ∈ m.members, set ∈ (ws.config c).dependents)
      (merge : m.IsOfDocuments (ws.set set).settings) : Change ws (ws.noteMerged set m)
  | read {ws : Workspace σ} (id : ConfigId) (known : ws.HasConfig id) :
      Change ws (ws.afterReading id)
  | depend {ws : Workspace σ} (set : SetId) (id : ConfigId)
      (own : (ws.config id).origin.isImported = false) : Change ws (addDependent set ws id)
  | forget (ws : Workspace σ) (id : ConfigId) :
      Change ws (ws.updateConfig id fun cell => { cell with contents := none })
  | insert {ws ws' : Workspace σ} {p : ProjectId} {name : String} {origin : ConfigOrigin}
      {id : ConfigId} (own : origin.isImported = false)
      (done : ws.insertConfig p name origin = .ok (id, ws')) : Change ws ws'
  /-- Of a project that is given no new configs and reads as before. -/
  | project (ws : Workspace σ) (p : ProjectId) (f : ProjectCell → ProjectCell)
      (held : ∀ cell, ∀ entry ∈ (f cell).configs, entry ∈ cell.configs)
      (alike : ∀ cell : ProjectCell, cell.ReadsAlike (f cell)) : Change ws (ws.updateProject p f)
  | useProject (ws : Workspace σ) (cell : ProjectCell) (empty : cell.configs = []) :
      Change ws (ws.useProject cell).2
  | switch (ws : Workspace σ) (p : ProjectId) (enabled : Bool) :
      Change ws (ws.enableImports p enabled)

/-- Changes, one after the other. -/
abbrev Changes : Workspace σ → Workspace σ → Prop :=
  Relation.ReflTransGen Change

/-! ### Reading and merging -/

/-- Reading is made of first readings. -/
theorem Reads.changes (h : Reads ws ws') : Changes ws ws' := by
  induction h with
  | refl => exact .refl
  | read _ id known ih => exact ih.tail (.read id known)

omit [DocumentSource σ] in
/-- Noting a set with a config leaves alone how configs came to be. -/
theorem origin_addDependent (set : SetId) (ws : Workspace σ) (id other : ConfigId) :
    ((addDependent set ws id).config other).origin = (ws.config other).origin := by
  rcases config_updateConfig_cases ws id other _ with same | ⟨rfl, noted⟩
  · rw [addDependent, same]
  · rw [addDependent, noted]

/-- Noting a set with its members is made of noting it with each of them. -/
theorem changes_addDependents (set : SetId) (ids : List ConfigId)
    (own : ∀ c ∈ ids, (ws.config c).origin.isImported = false) :
    Changes ws (ids.foldl (addDependent set) ws) := by
  induction ids generalizing ws with
  | nil => exact .refl
  | cons id rest ih =>
    refine .head (.depend set id (own id List.mem_cons_self)) (ih fun c listed => ?_)
    rw [origin_addDependent]
    exact own c (List.mem_cons_of_mem id listed)

/-- Asking a set reads what it has not been merged from yet, notes it with its members, and merges
it. -/
theorem changes_readSet [FiniteSource σ] (grounded : ws.Grounded) (set : SetId) :
    Changes ws ((readSet set).run ws).2 := by
  cases merged : (ws.set set).merged with
  | some m =>
    rw [readSet_of_merged merged]
  | none =>
    obtain ⟨reads, -⟩ := shows_mapM_readTree grounded.toWired fun c (hc : c ∈ ws.memberConfigs
      (ws.set set)) => (grounded.memberConfigs hc).1
    obtain ⟨-, wired, -, new⟩ := grounded.mergeSet set
    rw [run_readSet_of_unmerged merged]
    refine (reads.changes.trans (changes_addDependents set _ fun c hc => ?_)).tail
      (.note _ set _ (fun c hc => (new.members c hc).2.2) (new.isOfDocuments wired))
    obtain ⟨known, own⟩ := grounded.memberConfigs hc
    exact (reads.toExtends.cells c known).origin ▸ own

/-! ### Forgetting -/

/-- A change of a set that forgets its merged view. -/
theorem change_updateSet (ws : Workspace σ) (id : SetId) {f : SetCell → SetCell}
    (forgets : ∀ cell, (f cell).merged = none) : Change ws (ws.updateSet id f) :=
  .sets ws _ fun _ _ merged => (merged_updateSet forgets merged).2

/-- A reload forgets what was read, and then the views of sets. -/
theorem changes_reloadConfig (ws : Workspace σ) (id : ConfigId) :
    Changes ws (ws.reloadConfig id) := by
  rw [reloadConfig, resetSets_rest]
  refine (Relation.ReflTransGen.single (.forget ws id)).tail (.sets _ _ fun other m merged => ?_)
  have merged' : ((resetSets _ (ws.config id).dependents).set other).merged = some m := merged
  exact (merged_resetSets merged').2

/-- Resetting sets of projects tells listeners after each of them. -/
theorem changes_resetSetOfs (entries : List (ProjectId × SetId)) (ws : Workspace σ) :
    Changes ws (entries.foldl resetSetOf ws) := by
  induction entries generalizing ws with
  | nil => exact .refl
  | cons entry rest ih =>
    exact .head (change_updateSet ws entry.2 fun _ => rfl) (.head (.elsewhere _ _ _) (ih _))

/-- A reload in the model tells listeners between its two rounds of resets. -/
theorem changes_reloadInModel (ws : Workspace σ) (p : ProjectId) (id : ConfigId) :
    Changes ws (ws.reloadInModel p id) :=
  ((changes_reloadConfig ws id).tail (.elsewhere _ _ _)).trans (changes_resetSetOfs _ _)

/-- A reload by name is one of the config that the name stands for. -/
theorem changes_reload {name : String} (done : ws.reload name = .ok ws') : Changes ws ws' := by
  obtain ⟨p, id, -, rfl⟩ := eq_of_reload done
  exact changes_reloadInModel ws p id

/-- Refreshing reloads one config after the other. -/
theorem changes_refreshConfigs (entries : List (ProjectId × ConfigId)) (names : List String)
    (ws : Workspace σ) : Changes ws (entries.foldl refreshConfig (names, ws)).2 := by
  induction entries generalizing ws names with
  | nil => exact .refl
  | cons entry rest ih =>
    rw [List.foldl_cons, refreshConfig]
    by_cases changed : ws.hasChanged entry.2 = true
    · rw [if_pos changed]
      exact (changes_reloadInModel ws entry.1 entry.2).trans (ih _ _)
    · rw [if_neg changed]
      exact ih names ws

/-- The configs of the projects in the model. -/
def modelConfigs (ws : Workspace σ) : List (ProjectId × ConfigId) :=
  ws.model.projects.flatMap fun entry =>
    (ws.configsOf entry.2).map fun config => (entry.2, config)

omit [DocumentSource σ] in
/-- The model has the configs of its projects. -/
theorem mem_modelConfigs {p : ProjectId} {id : ConfigId} :
    (p, id) ∈ ws.modelConfigs ↔
      (∃ name, (name, p) ∈ ws.model.projects) ∧ ∃ name, (name, id) ∈ (ws.project p).configs := by
  simp [modelConfigs, configsOf]

/-- Refreshing goes through the configs of the model, one after the other. -/
theorem refresh_eq_ok {names : List String} (done : ws.refresh = .ok (names, ws')) :
    ws' = (ws.modelConfigs.foldl refreshConfig ([], ws)).2 := by
  unfold refresh at done
  split at done
  · cases done
  · exact (congrArg Prod.snd (Except.ok.inj done)).symm

theorem changes_refresh {names : List String} (done : ws.refresh = .ok (names, ws')) :
    Changes ws ws' := by
  rw [refresh_eq_ok done]
  exact changes_refreshConfigs _ _ ws

/-! ### Management -/

/-- Configs are added one after the other. -/
theorem changes_addConfigs (p : ProjectId) (names : List String) (ws : Workspace σ) :
    Changes ws (ws.addConfigs p names) :=
  addConfigs_preserves (fun added changes => changes.tail (.insert rfl added)) names .refl

/-- Detected ones, too. -/
theorem changes_addDetected (p : ProjectId) (locator : String) (names : List String)
    (ws : Workspace σ) : Changes ws (ws.addDetected p locator names).2 :=
  addDetected_preserves (fun added changes => changes.tail (.insert rfl added)) names .refl

/-- A set that is given a member forgets its view. -/
theorem changes_addMember (set : SetId) (name : String) (ws : Workspace σ) :
    Changes ws (ws.addMember set name).2 := by
  unfold addMember
  split
  · exact .refl
  · exact .single (change_updateSet ws set fun _ => rfl)

/-- So does a set that loses one. -/
theorem changes_removeMember (set : SetId) (name : String) (ws : Workspace σ) :
    Changes ws (ws.removeMember set name).2 := by
  unfold removeMember
  split
  · exact .single (change_updateSet ws set fun _ => rfl)
  · exact .refl

/-- A config that is removed leaves its project, and the sets of the project. -/
theorem changes_removeConfig (p : ProjectId) (name : String) (ws : Workspace σ) :
    Changes ws (ws.removeConfig p name).2 := by
  have members : ∀ (sets : List SetId) (ws : Workspace σ),
      Changes ws (sets.foldl (fun ws set => (ws.removeMember set name).2) ws) := by
    intro sets
    induction sets with
    | nil => exact fun _ => .refl
    | cons set rest ih => exact fun ws => (changes_removeMember set name ws).trans (ih _)
  have erased : Change ws (ws.updateProject p fun cell =>
      { cell with configs := Keyed.erase Prod.fst name cell.configs }) :=
    .project ws p _ (fun _ _ listed => (List.mem_filter.1 listed).1) fun _ => ⟨rfl, rfl, rfl⟩
  unfold removeConfig
  split
  · exact .head erased (members _ _)
  · exact .refl

theorem changes_removeConfigs (p : ProjectId) (names : List String) (ws : Workspace σ) :
    Changes ws (ws.removeConfigs p names) := by
  induction names generalizing ws with
  | nil => exact .refl
  | cons name rest ih => exact (changes_removeConfig p name ws).trans (ih _)

/-- A change of a project that leaves it its configs. -/
theorem changes_updateProject (ws : Workspace σ) (p : ProjectId) (f : ProjectCell → ProjectCell)
    (held : ∀ cell, (f cell).configs = cell.configs)
    (alike : ∀ cell : ProjectCell, cell.ReadsAlike (f cell)) : Changes ws (ws.updateProject p f) :=
  .single (.project ws p f (fun cell _ listed => held cell ▸ listed) alike)

theorem changes_removeSet (p : ProjectId) (name : String) (ws : Workspace σ) :
    Changes ws (ws.removeSet p name).2 :=
  changes_updateProject ws p _ (fun _ => rfl) fun _ => ⟨rfl, rfl, rfl⟩

/-- What a locator found is let go of with the sets that belong to it. -/
theorem changes_removeDetected (p : ProjectId) (locator : String) (ws : Workspace σ) :
    Changes ws (ws.removeDetected p locator) :=
  removeDetected_preserves (fun names changes => changes.trans (changes_removeConfigs p names _))
    (fun changes => changes.trans
      (changes_updateProject _ p _ (fun _ => rfl) fun _ => ⟨rfl, rfl, rfl⟩))
    (fun name changes => changes.trans (changes_removeSet p name _)) .refl

/-! ### Sets and the model -/

/-- A new set has no view, and its project lists it. -/
theorem changes_addSet {p : ProjectId} {name : String} {id : SetId}
    (done : ws.addSet p name = .ok (id, ws')) : Changes ws ws' := by
  obtain ⟨-, -, rfl⟩ := eq_of_addSet done
  have added : Change ws (ws.newSet { name, project := p }).2 := by
    refine .sets ws _ fun other m merged => ?_
    have cells := set_newSet ws { name, project := p } other
    by_cases new : other.index = ws.sets.size
    · have unmerged : ((ws.newSet { name, project := p }).2.set other).merged = none := by
        rw [cells, if_pos new]
      cases unmerged.symm.trans merged
    · rwa [if_neg new] at cells
  exact .head added (changes_updateProject _ p _ (fun _ => rfl) fun _ => ⟨rfl, rfl, rfl⟩)

/-- A set of a locator is added like any other, and noted as its. -/
theorem changes_addLocatedSet {p : ProjectId} {locator name : String} {id : SetId}
    (done : ws.addLocatedSet p locator name = .ok (id, ws')) : Changes ws ws' := by
  obtain ⟨added, first, rfl⟩ := eq_of_addLocatedSet done
  exact (changes_addSet first).trans
    (changes_updateProject _ p _ (fun _ => rfl) fun _ => ⟨rfl, rfl, rfl⟩)

/-- A project joins the model and is noted as attached. -/
theorem changes_addProject {p : ProjectId} (done : ws.addProject p = .ok ws') :
    Changes ws ws' := by
  have attached : Changes ws (ws.updateProject p fun cell => { cell with isAttached := true }) :=
    changes_updateProject ws p _ (fun _ => rfl) fun _ => ⟨rfl, rfl, rfl⟩
  obtain ⟨-, -, rfl⟩ := eq_of_addProject done
  exact attached.tail (.elsewhere _ _ _)

theorem changes_removeProject {name : String} {p : ProjectId}
    (done : ws.removeProject name = .ok (p, ws')) : Changes ws ws' := by
  obtain ⟨-, -, rfl⟩ := eq_of_removeProject done
  exact .single (.elsewhere ws _ _)

/-- Management is made of changes. -/
theorem ManagementStep.changes (step : ManagementStep ws ws') : Changes ws ws' := by
  cases step with
  | useProject => exact .single (.useProject ws _ rfl)
  | dropProject => exact .single (.elsewhere ws _ _)
  | addConfig done => exact .single (.insert rfl done)
  | addConfigs p names => exact changes_addConfigs p names ws
  | removeConfig p name => exact changes_removeConfig p name ws
  | replaceDetected p locator names =>
    exact (changes_removeConfigs p _ ws).trans (changes_addDetected p locator names _)
  | removeDetected p locator => exact changes_removeDetected p locator ws
  | addSet done => exact changes_addSet done
  | addLocatedSet done => exact changes_addLocatedSet done
  | removeSet p name => exact changes_removeSet p name ws
  | openModel => exact .single (.elsewhere ws _ _)
  | closeModel => exact .single (.elsewhere ws _ _)
  | addProject done => exact changes_addProject done
  | removeProject done => exact changes_removeProject done
  | subscribe => exact .single (.elsewhere ws _ _)
  | unsubscribe => exact .single (.elsewhere ws _ _)

/-! ### Content -/

/-- A change of content is one of documents, or is made of changes. -/
theorem ContentStep.changes [FiniteSource σ] (step : ContentStep ws ws') (grounded : ws.Grounded) :
    (∃ source, ws' = { ws with source }) ∨ Changes ws ws' := by
  have settings : ∀ id f, Changes ws (ws.changeSettings id f) := fun id _ =>
    .single (change_updateSet ws id fun _ => rfl)
  cases step with
  | documents source => exact .inl ⟨source, rfl⟩
  | reloadConfig id => exact .inr (changes_reloadConfig ws id)
  | reload name done => exact .inr (changes_reload done)
  | refresh names done => exact .inr (changes_refresh done)
  | enableImports p enabled => exact .inr (.single (.switch ws p enabled))
  | addMember id name => exact .inr (changes_addMember id name ws)
  | removeMember id name => exact .inr (changes_removeMember id name ws)
  | allowBeanOverriding id allowed => exact .inr (settings id _)
  | allowAliasOverriding id allowed => exact .inr (settings id _)
  | markIncomplete id isIncomplete => exact .inr (settings id _)
  | resetSet id => exact .inr (.single (change_updateSet ws id fun _ => rfl))
  | query step =>
    rcases step.effect grounded.toWired with reads | ⟨id, rfl⟩
    · exact .inr reads.changes
    · exact .inr (changes_readSet grounded id)

/-! ### Whatever can come about -/

/-- Switches imports without reloading. -/
def switched (ws : Workspace σ) (p : ProjectId) (enabled : Bool) : Workspace σ :=
  ws.updateProject p fun cell =>
    { cell with settings := { cell.settings with importsEnabled := enabled } }

omit [DocumentSource σ] in
/-- What the switch alone keeps, and every reload, is kept when imports are switched. -/
theorem enableImports_induction {motive : Workspace σ → Prop} {p : ProjectId} {enabled : Bool}
    (unchanged : motive ws) (switched : motive (ws.switched p enabled))
    (reloaded : ∀ ws id, motive ws → motive (ws.reloadConfig id)) :
    motive (ws.enableImports p enabled) := by
  have reloads : ∀ (ids : List ConfigId) (ws : Workspace σ), motive ws →
      motive (ids.foldl Workspace.reloadConfig ws) := by
    intro ids
    induction ids with
    | nil => exact fun _ kept => kept
    | cons id rest ih => exact fun ws kept => ih _ (reloaded ws id kept)
  unfold enableImports
  split
  · exact unchanged
  · exact reloads _ _ switched

/-- Every change leaves configs hanging together. -/
theorem Grounded.change (h : ws.Grounded) (change : Change ws ws') : ws'.Grounded := by
  cases change with
  | elsewhere | sets | note => exact h.congr rfl h.held
  | read id known =>
    have reads := (Reads.refl ws).read id known
    exact h.of_extends (extends_afterReading known) (reads.wired h.toWired)
  | depend set id own =>
    refine ⟨wired_addDependent h.toWired set id, fun p entry listed => ?_⟩
    obtain ⟨known, own⟩ := h.held p entry listed
    rw [origin_addDependent]
    exact ⟨known.of_size_le (Nat.le_of_eq (size_updateConfig ws id _).symm), own⟩
  | forget id =>
    -- Forgetting is reloading, but for the sets.
    refine (h.reloadConfig id).congr ?_ fun p entry listed => ?_
    · exact (configs_resetSets _ _).symm
    · refine (h.reloadConfig id).held p entry ?_
      rw [project, projects_reloadConfig]
      exact listed
  | insert own done => exact h.insertConfig own done
  | project p f held alike => exact h.updateProject p held
  | useProject cell empty => exact h.useProject empty
  | switch p enabled =>
    have switched : (ws.switched p enabled).Grounded := h.updateProject p fun _ _ listed => listed
    exact enableImports_induction (motive := Grounded) h switched fun _ id kept =>
      kept.reloadConfig id

/-- So do changes one after the other. -/
theorem Grounded.changes (h : ws.Grounded) (changes : Changes ws ws') : ws'.Grounded := by
  induction changes with
  | refl => exact h
  | tail _ step ih => exact ih.change step

/-- And every change of content. -/
theorem ContentStep.grounded [FiniteSource σ] (step : ContentStep ws ws') (h : ws.Grounded) :
    ws'.Grounded := by
  rcases step.changes h with ⟨source, rfl⟩ | changes
  · exact h.congr rfl h.held
  · exact h.changes changes

/-- A workspace that can come about, over whatever documents it starts with and whatever is done to
it.  Any config may be reloaded, also one that an import made. -/
inductive FreelyReachable : Workspace σ → Prop
  | start (source : σ) : FreelyReachable { source }
  | content {ws ws' : Workspace σ} (before : FreelyReachable ws) (step : ContentStep ws ws') :
      FreelyReachable ws'
  | management {ws ws' : Workspace σ} (before : FreelyReachable ws)
      (step : ManagementStep ws ws') : FreelyReachable ws'
  | reloadConfig {ws : Workspace σ} (before : FreelyReachable ws) (id : ConfigId) :
      FreelyReachable (ws.reloadConfig id)

/-- What can come about without reloads of imported configs, can come about. -/
theorem Reachable.freely (h : Reachable ws) : FreelyReachable ws := by
  induction h with
  | start source => exact .start source
  | content _ step ih => exact ih.content step
  | management _ step ih => exact ih.management step

section Induction

variable [FiniteSource σ] {P : Workspace σ → Prop}

/-- What holds at first, and is preserved by documents and by every change, holds of every workspace
that can come about. -/
theorem FreelyReachable.of_changes (start : ∀ source, P { source })
    (documents : ∀ (ws : Workspace σ) source, P ws → P { ws with source })
    (change : ∀ {ws ws' : Workspace σ}, Change ws ws' → P ws → P ws') (h : FreelyReachable ws) :
    P ws := by
  have run : ∀ {ws ws' : Workspace σ}, Changes ws ws' → ws.Grounded ∧ P ws →
      ws'.Grounded ∧ P ws' := by
    intro ws ws' changes before
    induction changes with
    | refl => exact before
    | tail _ step ih => exact ⟨ih.1.change step, change step ih.2⟩
  -- Only of a workspace in which configs hang together it is known that steps are changes.
  refine And.right (a := ws.Grounded) ?_
  induction h with
  | start source => exact ⟨(sound_start source).grounded, start source⟩
  | content before step ih =>
    rcases step.changes ih.1 with ⟨source, rfl⟩ | changes
    · exact ⟨ih.1.congr rfl ih.1.held, documents _ source ih.2⟩
    · exact run changes ih
  | management before step ih => exact run step.changes ih
  | reloadConfig before id ih => exact run (changes_reloadConfig _ id) ih

/-- Whatever has been done, configs hang together. -/
theorem FreelyReachable.grounded (h : FreelyReachable ws) : ws.Grounded :=
  h.of_changes (fun source => (sound_start source).grounded)
    (fun _ _ before => before.congr rfl before.held) fun change before => before.change change

end Induction

/-! ## What changes leave alone -/

/-- Configs are what they were, and what was read of them has at most been forgotten.  A project
that reads otherwise holds only configs that have not been read. -/
structure Sheds (ws ws' : Workspace σ) : Prop where
  size_le : ws.configs.size ≤ ws'.configs.size
  frame : ∀ id, ws.HasConfig id → (ws'.config id).name = (ws.config id).name ∧
    (ws'.config id).chain = (ws.config id).chain ∧ (ws'.config id).project = (ws.config id).project
  contents : ∀ id c, (ws'.config id).contents = some c → (ws.config id).contents = some c
  held : ∀ p, ∀ entry ∈ (ws'.project p).configs,
    entry ∈ (ws.project p).configs ∧
        ((ws.project p).ReadsAlike (ws'.project p) ∨ (ws'.config entry.2).contents = none) ∨
      ws'.HasConfig entry.2 ∧ (ws'.config entry.2).contents = none ∧
        (ws'.config entry.2).project = p ∧ (ws'.config entry.2).chain = []

omit [DocumentSource σ]

/-- Cells that have at most forgotten what was read, in the same projects. -/
theorem sheds_of_cells (size : ws'.configs.size = ws.configs.size)
    (projects : ws'.projects = ws.projects)
    (cells : ∀ id, ∃ contents dependents,
      ws'.config id = { ws.config id with contents, dependents } ∧
        ∀ c, contents = some c → (ws.config id).contents = some c) : Sheds ws ws' where
  size_le := Nat.le_of_eq size.symm
  frame := by
    intro id _
    obtain ⟨_, _, cell, -⟩ := cells id
    rw [cell]
    exact ⟨rfl, rfl, rfl⟩
  contents := by
    intro id c read
    obtain ⟨contents, _, cell, kept⟩ := cells id
    rw [cell] at read
    exact kept c read
  held := by
    intro p entry listed
    have same : ws'.project p = ws.project p := by rw [project, projects, project]
    rw [same] at listed ⊢
    exact .inl ⟨listed, .inl ⟨rfl, rfl, rfl⟩⟩

/-- Changes of projects that hold no other configs and read them as before. -/
theorem sheds_of_projects (configs : ws'.configs = ws.configs)
    (projects : ∀ p, ∀ entry ∈ (ws'.project p).configs,
      entry ∈ (ws.project p).configs ∧ (ws.project p).ReadsAlike (ws'.project p)) :
    Sheds ws ws' where
  size_le := Nat.le_of_eq (congrArg Array.size configs).symm
  frame := by
    intro id _
    rw [config_congr configs]
    exact ⟨rfl, rfl, rfl⟩
  contents := by
    intro id c read
    rwa [config_congr configs] at read
  held := by
    intro p entry listed
    obtain ⟨before, alike⟩ := projects p entry listed
    exact .inl ⟨before, .inl alike⟩

/-- The new config comes last, and the project holds it. -/
theorem insertConfig_eq_ok {p : ProjectId} {name : String} {origin : ConfigOrigin} {id : ConfigId}
    (done : ws.insertConfig p name origin = .ok (id, ws')) :
    id.index = ws.configs.size ∧ ws'.configs.size = ws.configs.size + 1 ∧
      (∀ other, ws'.config other = if other.index = ws.configs.size
        then { name, origin, project := p } else ws.config other) ∧
      ∀ q, ws'.project q = ws.project q ∨
        q = p ∧ ws'.project q
          = { ws.project q with configs := (ws.project q).configs ++ [(name, id)] } := by
  obtain ⟨-, rfl, rfl⟩ := eq_of_insertConfig done
  refine ⟨rfl, Array.size_push _, config_newConfig ws { name, origin, project := p }, fun q => ?_⟩
  rcases project_updateProject_cases (ws.newConfig { name, origin, project := p }).2 p q _ with
    same | ⟨rfl, changed⟩
  · exact .inl same
  · exact .inr ⟨rfl, changed⟩

/-- A new config has not been read, and is held by its project. -/
theorem sheds_insertConfig {p : ProjectId} {name : String} {origin : ConfigOrigin} {id : ConfigId}
    (done : ws.insertConfig p name origin = .ok (id, ws')) : Sheds ws ws' := by
  obtain ⟨last, size, cells, projects⟩ := insertConfig_eq_ok done
  refine ⟨by omega, ?_, ?_, ?_⟩
  · intro other known
    rw [cells, if_neg (Nat.ne_of_lt known)]
    exact ⟨rfl, rfl, rfl⟩
  · intro other c read
    rw [cells] at read
    by_cases new : other.index = ws.configs.size
    · rw [if_pos new] at read
      cases read
    · rwa [if_neg new] at read
  · intro q entry listed
    rcases projects q with same | ⟨rfl, more⟩
    · rw [same] at listed ⊢
      exact .inl ⟨listed, .inl ⟨rfl, rfl, rfl⟩⟩
    · rw [more] at listed ⊢
      rcases List.mem_append.1 listed with old | new
      · exact .inl ⟨old, .inl ⟨rfl, rfl, rfl⟩⟩
      · cases List.mem_singleton.1 new
        have inside : ws'.HasConfig id := by
          unfold HasConfig
          omega
        rw [cells, if_pos last]
        exact .inr ⟨inside, rfl, rfl, rfl⟩

theorem Sheds.refl (ws : Workspace σ) : Sheds ws ws :=
  sheds_of_cells rfl rfl fun _ => ⟨_, _, rfl, fun _ read => read⟩

/-- A project that comes into use holds no config. -/
theorem sheds_useProject {cell : ProjectCell} (empty : cell.configs = []) :
    Sheds ws (ws.useProject cell).2 := by
  refine sheds_of_projects rfl fun p entry listed => ?_
  have cells : (ws.useProject cell).2.project p
      = if p.index = ws.projects.size then cell else ws.project p :=
    project_push ws cell p
  by_cases new : p.index = ws.projects.size
  · rw [cells, if_pos new, empty] at listed
    cases listed
  · rw [if_neg new] at cells
    rw [cells] at listed ⊢
    exact ⟨listed, rfl, rfl, rfl⟩

/-! ### Switching imports -/

/-- After configs were reloaded nothing is known of them, and of the others what was known. -/
theorem config_reloadConfigs (ids : List ConfigId) (ws : Workspace σ) :
    (ids.foldl reloadConfig ws).configs.size = ws.configs.size ∧
      (ids.foldl reloadConfig ws).projects = ws.projects ∧
      ∀ id, ∃ contents, (ids.foldl reloadConfig ws).config id = { ws.config id with contents } ∧
        ∀ c, contents = some c → (ws.config id).contents = some c ∧ id ∉ ids := by
  induction ids generalizing ws with
  | nil => exact ⟨rfl, rfl, fun id => ⟨_, rfl, fun _ read => ⟨read, List.not_mem_nil⟩⟩⟩
  | cons first rest ih =>
    obtain ⟨size, projects, cells⟩ := ih (ws.reloadConfig first)
    refine ⟨size.trans (size_reloadConfig ws first), ?_, fun id => ?_⟩
    · rw [List.foldl_cons, projects, projects_reloadConfig]
    · obtain ⟨contents, cell, kept⟩ := cells id
      rw [List.foldl_cons, cell]
      by_cases it : id = first
      · subst it
        have none : ((ws.reloadConfig id).config id).contents = none := by
          rw [reloadConfig, config_congr (configs_resetSets _ _)]
          by_cases known : ws.HasConfig id
          · rw [config_updateConfig ws id id _ known, if_pos rfl]
          · rcases config_updateConfig_cases ws id id _ with same | ⟨-, forgotten⟩
            · rw [same, config_of_not_hasConfig known]
            · rw [forgotten]
        obtain ⟨_, frame⟩ := frame_reloadConfig ws id id
        refine ⟨contents, by rw [frame], fun c read => ?_⟩
        rw [none] at kept
        cases (kept c read).1
      · rw [config_reloadConfig_of_ne it] at kept ⊢
        refine ⟨contents, rfl, fun c read => ⟨(kept c read).1, ?_⟩⟩
        rw [List.mem_cons, not_or]
        exact ⟨it, (kept c read).2⟩

/-- Switching imports forgets what was read of all configs of the project. -/
theorem sheds_enableImports (ws : Workspace σ) (p : ProjectId) (enabled : Bool) :
    Sheds ws (ws.enableImports p enabled) := by
  unfold enableImports
  split
  · exact .refl ws
  · show Sheds ws (((ws.switched p enabled).configsOf p).foldl reloadConfig (ws.switched p enabled))
    obtain ⟨size, projects, cells⟩ :=
      config_reloadConfigs ((ws.switched p enabled).configsOf p) (ws.switched p enabled)
    refine ⟨Nat.le_of_eq size.symm, ?_, ?_, ?_⟩
    · intro id _
      obtain ⟨_, cell, -⟩ := cells id
      rw [cell]
      exact ⟨rfl, rfl, rfl⟩
    · intro id c read
      obtain ⟨_, cell, kept⟩ := cells id
      rw [cell] at read
      exact (kept c read).1
    · intro q entry listed
      left
      have project : (((ws.switched p enabled).configsOf p).foldl reloadConfig
          (ws.switched p enabled)).project q = (ws.switched p enabled).project q := by
        rw [project, projects, project]
      rw [project] at listed ⊢
      rcases project_updateProject_cases ws p q _ with same | ⟨rfl, changed⟩
      · have same : (ws.switched p enabled).project q = ws.project q := same
        rw [same] at listed ⊢
        exact ⟨listed, .inl ⟨rfl, rfl, rfl⟩⟩
      · have held : ((ws.switched q enabled).project q).configs = (ws.project q).configs := by
          have configs := congrArg ProjectCell.configs changed
          exact configs
        -- What the project holds was reloaded.
        have reloaded : entry.2 ∈ (ws.switched q enabled).configsOf q :=
          List.mem_map.2 ⟨entry, listed, rfl⟩
        refine ⟨held ▸ listed, .inr ?_⟩
        obtain ⟨contents, cell, kept⟩ := cells entry.2
        rw [cell]
        cases contents with
        | none => rfl
        | some c => exact absurd reloaded (kept c rfl).2

/-! ### All changes -/

/-- A change that is not the first reading of a config leaves configs what they are, and at most
forgets what was read. -/
theorem Change.read_or_sheds [DocumentSource σ] (change : Change ws ws') :
    (∃ id, ws.HasConfig id ∧ (ws.config id).contents = none ∧ ws' = ws.afterReading id) ∨
      Sheds ws ws' := by
  have unchanged : ∀ {ws' : Workspace σ}, ws'.configs = ws.configs → ws'.projects = ws.projects →
      Sheds ws ws' := fun configs projects =>
    sheds_of_cells (congrArg Array.size configs) projects fun id =>
      ⟨_, _, config_congr configs id, fun _ read => read⟩
  cases change with
  | elsewhere | sets | note => exact .inr (unchanged rfl rfl)
  | read id known =>
    cases unread : (ws.config id).contents with
    | some c =>
      rw [afterReading_of_read unread]
      exact .inr (.refl ws)
    | none => exact .inl ⟨id, known, unread, rfl⟩
  | depend set id own =>
    refine .inr (sheds_of_cells (size_updateConfig ws id _) rfl fun other => ?_)
    rcases config_updateConfig_cases ws id other _ with same | ⟨rfl, noted⟩
    · exact ⟨_, _, same, fun _ read => read⟩
    · exact ⟨_, _, noted, fun _ read => read⟩
  | forget id =>
    refine .inr (sheds_of_cells (size_updateConfig ws id _) rfl fun other => ?_)
    rcases config_updateConfig_cases ws id other _ with same | ⟨rfl, forgotten⟩
    · exact ⟨_, _, same, fun _ read => read⟩
    · exact ⟨none, _, forgotten, fun _ none => by cases none⟩
  | insert own done => exact .inr (sheds_insertConfig done)
  | project p f held alike =>
    refine .inr (sheds_of_projects rfl fun q entry listed => ?_)
    rcases project_updateProject_cases ws p q f with same | ⟨rfl, changed⟩
    · rw [same] at listed ⊢
      exact ⟨listed, rfl, rfl, rfl⟩
    · rw [changed] at listed ⊢
      exact ⟨held _ entry listed, alike _⟩
  | useProject cell empty => exact .inr (sheds_useProject empty)
  | switch p enabled => exact .inr (sheds_enableImports ws p enabled)

theorem source_insertConfig {p : ProjectId} {name : String} {origin : ConfigOrigin} {id : ConfigId}
    (done : ws.insertConfig p name origin = .ok (id, ws')) : ws'.source = ws.source := by
  obtain ⟨-, -, rfl⟩ := eq_of_insertConfig done
  rfl

/-- No change is one of documents. -/
theorem Change.source [DocumentSource σ] (change : Change ws ws') : ws'.source = ws.source := by
  cases change with
  | elsewhere | sets | note => rfl
  | read id known => exact (extends_afterReading known).source
  | depend => rfl
  | forget => rfl
  | insert _ done => exact source_insertConfig done
  | project => rfl
  | useProject => rfl
  | switch p enabled =>
    exact enableImports_induction (motive := fun ws' => ws'.source = ws.source) rfl rfl
      fun ws' id same => (source_reloadConfig ws' id).trans same

theorem Changes.source [DocumentSource σ] (changes : Changes ws ws') : ws'.source = ws.source := by
  induction changes with
  | refl => rfl
  | tail _ change ih => exact change.source.trans ih

end BeanWiring.Workspace
