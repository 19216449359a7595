/-
# Rosters

A project is found by its name among the projects of the model, and it has its configs and its sets
listed by name.  All these lists are kept by the operations: each lists what was made, under the
name that it was made with, and no name twice.

Main statements:

* `Retains` : what is left of projects, sets and their lists by all that adds nothing to the lists;
* `Rostered` : what holds of the lists;
* `Rostered.lookup_name`, `Rostered.eq_of_name` : projects of the model are told apart by name.
-/
import BeanWiring.Proofs.Workspace.Happenings
import BeanWiring.Proofs.Workspace.LocatedSets
import BeanWiring.Proofs.Workspace.MemberNames

namespace BeanWiring.Workspace

variable {σ : Type} {ws ws' ws'' : Workspace σ} {p q : ProjectId}

/-! ## What is left of the lists -/

/-- Projects and sets go by their names, projects that see the others go on seeing them, and no list
of a project has got longer. -/
structure Retains (ws ws' : Workspace σ) : Prop where
  projects : ∀ p, ws.HasProject p → ws'.HasProject p ∧
    (ws'.project p).name = (ws.project p).name ∧
    ((ws.project p).isAttached = true → (ws'.project p).isAttached = true)
  sets : ∀ s, ws.HasSet s → ws'.HasSet s ∧ (ws'.set s).name = (ws.set s).name ∧
    (ws'.set s).project = (ws.set s).project
  lists : ∀ p, (ws'.project p).configs.Sublist (ws.project p).configs ∧
    (ws'.project p).sets.Sublist (ws.project p).sets

namespace Retains

/-- Nothing is lost where neither projects nor sets change. -/
theorem of_same (projects : ws'.projects = ws.projects) (sets : ws'.sets = ws.sets) :
    Retains ws ws' where
  projects := by
    intro p made
    rw [HasProject, project, projects]
    exact ⟨made, rfl, id⟩
  sets := by
    intro s known
    rw [HasSet, sets, set_congr sets]
    exact ⟨known, rfl, rfl⟩
  lists := by
    intro p
    rw [project, projects]
    exact ⟨.refl _, .refl _⟩

theorem refl (ws : Workspace σ) : Retains ws ws := of_same rfl rfl

theorem trans (h : Retains ws ws') (h' : Retains ws' ws'') : Retains ws ws'' where
  projects := by
    intro p made
    obtain ⟨made', name, attached⟩ := h.projects p made
    obtain ⟨made'', name', attached'⟩ := h'.projects p made'
    exact ⟨made'', name'.trans name, attached' ∘ attached⟩
  sets := by
    intro s known
    obtain ⟨known', name, owner⟩ := h.sets s known
    obtain ⟨known'', name', owner'⟩ := h'.sets s known'
    exact ⟨known'', name'.trans name, owner'.trans owner⟩
  lists := fun p =>
    ⟨(h'.lists p).1.trans (h.lists p).1, (h'.lists p).2.trans (h.lists p).2⟩

end Retains

/-! ### Changes of one thing -/

/-- A change of a set that keeps its name and its project loses nothing. -/
theorem retains_updateSet (ws : Workspace σ) (id : SetId) {f : SetCell → SetCell}
    (same : ∀ cell, (f cell).name = cell.name ∧ (f cell).project = cell.project) :
    Retains ws (ws.updateSet id f) where
  projects := fun _ made => ⟨made, rfl, fun attached => attached⟩
  sets := by
    intro s known
    have size : (ws.updateSet id f).sets.size = ws.sets.size := Array.size_modify
    rw [HasSet, size]
    rcases set_updateSet_cases ws id s f with unchanged | ⟨rfl, changed⟩
    · rw [unchanged]
      exact ⟨known, rfl, rfl⟩
    · rw [changed]
      exact ⟨known, same _⟩
  lists := fun _ => ⟨.refl _, .refl _⟩

/-- Nor does a change of a project that only drops configs and sets. -/
theorem retains_updateProject (ws : Workspace σ) (p : ProjectId) {f : ProjectCell → ProjectCell}
    (name : ∀ cell, (f cell).name = cell.name)
    (attached : ∀ cell, cell.isAttached = true → (f cell).isAttached = true)
    (lists : ∀ cell, (f cell).configs.Sublist cell.configs ∧ (f cell).sets.Sublist cell.sets) :
    Retains ws (ws.updateProject p f) where
  projects := by
    intro q made
    refine ⟨hasProject_updateProject.2 made, ?_⟩
    rcases project_updateProject_cases ws p q f with same | ⟨rfl, changed⟩
    · rw [same]
      exact ⟨rfl, id⟩
    · rw [changed]
      exact ⟨name _, attached _⟩
  sets := fun _ known => ⟨known, rfl, rfl⟩
  lists := by
    intro q
    rcases project_updateProject_cases ws p q f with same | ⟨rfl, changed⟩
    · rw [same]
      exact ⟨.refl _, .refl _⟩
    · rw [changed]
      exact lists _

/-! ### Content -/

theorem retains_resetSet (ws : Workspace σ) (id : SetId) : Retains ws (ws.resetSet id) :=
  retains_updateSet ws id fun _ => ⟨rfl, rfl⟩

/-- Forgetting views loses no set. -/
theorem retains_resetSets (ids : List SetId) (ws : Workspace σ) :
    Retains ws (ws.resetSets ids) := by
  induction ids generalizing ws with
  | nil => exact .refl ws
  | cons id rest ih => exact (retains_resetSet ws id).trans (ih _)

/-- Reloading a config, neither. -/
theorem retains_reloadConfig (ws : Workspace σ) (id : ConfigId) :
    Retains ws (ws.reloadConfig id) := by
  have forgotten : Retains ws (ws.updateConfig id fun cell => { cell with contents := none }) :=
    .of_same rfl rfl
  exact forgotten.trans (retains_resetSets _ _)

theorem retains_reloadInModel (ws : Workspace σ) (p : ProjectId) (id : ConfigId) :
    Retains ws (ws.reloadInModel p id) := by
  rw [reloadInModel_eq]
  have forgotten : Retains ws (ws.updateConfig id fun cell => { cell with contents := none }) :=
    .of_same rfl rfl
  exact (forgotten.trans (retains_resetSets _ _)).trans (.of_same rfl rfl)

/-- Switching imports keeps what the project lists. -/
theorem retains_enableImports (ws : Workspace σ) (p : ProjectId) (enabled : Bool) :
    Retains ws (ws.enableImports p enabled) := by
  have switched : Retains ws (ws.switched p enabled) :=
    retains_updateProject ws p (fun _ => rfl) (fun _ attached => attached)
      fun _ => ⟨.refl _, .refl _⟩
  exact enableImports_induction (motive := Retains ws) (.refl ws) switched fun ws' id kept =>
    kept.trans (retains_reloadConfig ws' id)

theorem retains_changeSettings (ws : Workspace σ) (id : SetId) (f : SetSettings → SetSettings) :
    Retains ws (ws.changeSettings id f) :=
  retains_updateSet ws id fun _ => ⟨rfl, rfl⟩

section Content

variable [DocumentSource σ]

/-- Refreshing loses nothing either. -/
theorem retains_refreshConfigs (entries : List (ProjectId × ConfigId)) (names : List String)
    (ws : Workspace σ) : Retains ws (entries.foldl refreshConfig (names, ws)).2 := by
  induction entries generalizing ws names with
  | nil => exact .refl ws
  | cons entry rest ih =>
    rw [List.foldl_cons, refreshConfig]
    by_cases changed : ws.hasChanged entry.2 = true
    · rw [if_pos changed]
      exact (retains_reloadInModel ws entry.1 entry.2).trans (ih _ _)
    · rw [if_neg changed]
      exact ih names ws

omit [DocumentSource σ] in
/-- What is read for the first time is added to what there is. -/
theorem Extends.retains (ext : ws.Extends ws') : Retains ws ws' :=
  .of_same (congrArg Workspace.projects ext.rest :) (congrArg Workspace.sets ext.rest :)

variable [FiniteSource σ]

/-- Asking a set loses nothing. -/
theorem retains_readSet (sound : ws.Sound) (id : SetId) :
    Retains ws ((readSet id).run ws).2 := by
  cases merged : (ws.set id).merged with
  | some m =>
    rw [readSet_of_merged merged]
    exact .refl ws
  | none =>
    obtain ⟨ext, -⟩ := sound.mergeSet id
    rw [run_readSet_of_unmerged merged]
    exact ext.retains.trans (retains_updateSet _ id fun _ => ⟨rfl, rfl⟩)

/-- Changes of content leave the lists. -/
theorem ContentStep.retains (step : ContentStep ws ws') (sound : ws.Sound) : Retains ws ws' := by
  cases step with
  | documents source => exact .of_same rfl rfl
  | reloadConfig id own => exact retains_reloadConfig ws id
  | reload name done =>
    obtain ⟨p, c, -, rfl⟩ := eq_of_reload done
    exact retains_reloadInModel ws p c
  | refresh names done =>
    rw [refresh_eq_ok done]
    exact retains_refreshConfigs _ _ ws
  | enableImports p enabled => exact retains_enableImports ws p enabled
  | addMember id name =>
    unfold Workspace.addMember
    split
    · exact .refl ws
    · dsimp only
      exact retains_changeSettings ws id _
  | removeMember id name =>
    unfold Workspace.removeMember
    split
    · dsimp only
      exact retains_changeSettings ws id _
    · exact .refl ws
  | allowBeanOverriding id allowed => exact retains_changeSettings ws id _
  | allowAliasOverriding id allowed => exact retains_changeSettings ws id _
  | markIncomplete id isIncomplete => exact retains_changeSettings ws id _
  | resetSet id => exact retains_resetSet ws id
  | query step =>
    rcases step.effect sound.toWired with reads | ⟨id, rfl⟩
    · exact reads.toExtends.retains
    · exact retains_readSet sound id

end Content

/-! ### Management -/

/-- A project that comes into use has its place after all others. -/
theorem retains_useProject (ws : Workspace σ) {cell : ProjectCell} (configs : cell.configs = [])
    (sets : cell.sets = []) : Retains ws (ws.useProject cell).2 := by
  have cells : ∀ q, (ws.useProject cell).2.project q
      = if q.index = ws.projects.size then cell else ws.project q :=
    project_push ws cell
  have size : (ws.useProject cell).2.projects.size = ws.projects.size + 1 := Array.size_push cell
  refine ⟨fun q made => ?_, fun s known => ⟨known, rfl, rfl⟩, fun q => ?_⟩
  · have old : q.index ≠ ws.projects.size := Nat.ne_of_lt made
    rw [HasProject, size, cells, if_neg old]
    exact ⟨Nat.lt_succ_of_lt made, rfl, id⟩
  · rw [cells]
    split
    · rw [configs, sets]
      exact ⟨List.nil_sublist _, List.nil_sublist _⟩
    · exact ⟨.refl _, .refl _⟩

/-- Configs that are let go are dropped from the lists of their project, and all else stays. -/
theorem Releases.retains {names : List String} (h : Releases ws ws' p names) :
    Retains ws ws' where
  projects := by
    intro q made
    refine ⟨h.hasProject made, ?_⟩
    rw [h.project]
    split
    · rename_i same
      rw [same]
      exact ⟨rfl, id⟩
    · exact ⟨rfl, id⟩
  sets := by
    intro s known
    rw [HasSet, h.setsSize, h.sets]
    refine ⟨known, ?_⟩
    split
    · exact ⟨rfl, rfl⟩
    · exact ⟨rfl, rfl⟩
  lists := by
    intro q
    rw [h.project]
    split
    · rename_i same
      rw [same]
      exact ⟨List.filter_sublist, .refl _⟩
    · exact ⟨.refl _, .refl _⟩

/-- A set that is removed is dropped from the list of its project. -/
theorem retains_removeSet (p : ProjectId) (name : String) (ws : Workspace σ) :
    Retains ws (ws.removeSet p name).2 :=
  retains_updateProject ws p (fun _ => rfl) (fun _ attached => attached)
    fun _ => ⟨.refl _, List.filter_sublist⟩

/-- What a locator found is dropped with the sets that belong to it. -/
theorem retains_removeDetected (p : ProjectId) (locator : String) (ws : Workspace σ) :
    Retains ws (ws.removeDetected p locator) :=
  removeDetected_preserves
    (fun names retains => retains.trans (releases_removeConfigs _ p names).retains)
    (fun retains => retains.trans (retains_updateProject _ p (fun _ => rfl)
      (fun _ attached => attached) fun _ => ⟨.refl _, .refl _⟩))
    (fun name retains => retains.trans (retains_removeSet p name _)) (.refl ws)

theorem retains_addProject (done : ws.addProject p = .ok ws') : Retains ws ws' := by
  obtain ⟨-, -, rfl⟩ := eq_of_addProject done
  have attached : Retains ws (ws.updateProject p fun cell => { cell with isAttached := true }) :=
    retains_updateProject ws p (fun _ => rfl) (fun _ _ => rfl) fun _ => ⟨.refl _, .refl _⟩
  exact attached.trans (.of_same rfl rfl)

/-- The model lists a project that was added after all others, under its name. -/
theorem projects_addProject (done : ws.addProject p = .ok ws') :
    ws'.model.projects = ws.model.projects ++ [((ws.project p).name, p)] := by
  obtain ⟨-, -, rfl⟩ := eq_of_addProject done
  rfl

/-- Where all projects of the model were made, so was one that has just been added. -/
theorem made_of_addProject (done : ws.addProject p = .ok ws')
    (made : ∀ entry ∈ ws'.model.projects, ws'.HasProject entry.2) : ws.HasProject p := by
  have last := made ((ws.project p).name, p)
    (projects_addProject done ▸ List.mem_append_right _ List.mem_cons_self)
  obtain ⟨-, -, rfl⟩ := eq_of_addProject done
  exact hasProject_updateProject.1 last

/-- A model that lost a project lists no other one. -/
theorem projects_removeProject {name : String} (done : ws.removeProject name = .ok (p, ws')) :
    ∀ entry ∈ ws'.model.projects, entry ∈ ws.model.projects := by
  obtain ⟨-, -, rfl⟩ := eq_of_removeProject done
  exact fun _ listed => (List.mem_filter.1 listed).1

theorem retains_removeProject {name : String} (done : ws.removeProject name = .ok (p, ws')) :
    Retains ws ws' := by
  obtain ⟨-, -, rfl⟩ := eq_of_removeProject done
  exact .of_same rfl rfl

/-! ## Lists -/

/-- The lists by which projects, configs and sets are found.  The model lists projects that see each
other under their names, a project lists its configs and its sets under theirs, and no list of a
project has a name twice. -/
structure Rostered (ws : Workspace σ) : Prop where
  inModel : ∀ entry ∈ ws.model.projects, ws.HasProject entry.2 ∧
    (ws.project entry.2).name = entry.1 ∧ (ws.project entry.2).isAttached = true
  sets : ∀ p, ∀ entry ∈ (ws.project p).sets, ws.HasSet entry.2 ∧
    (ws.set entry.2).name = entry.1 ∧ (ws.set entry.2).project = p
  once : ∀ p, ((ws.project p).configs.map Prod.fst).Nodup ∧
    ((ws.project p).sets.map Prod.fst).Nodup

/-- A set that is added is made, and its project lists it last. -/
theorem addSet_cases {name : String} {id : SetId} (done : ws.addSet p name = .ok (id, ws')) :
    name ∉ (ws.project p).sets.map Prod.fst ∧ id.index = ws.sets.size ∧
      ws'.sets.size = ws.sets.size + 1 ∧
      (∀ s, ws'.set s = if s.index = ws.sets.size then { name, project := p } else ws.set s) ∧
      ∀ q, ws'.project q = ws.project q ∨
        q = p ∧ ws'.project q
          = { ws.project q with sets := (ws.project q).sets ++ [(name, id)] } := by
  obtain ⟨free, rfl, rfl⟩ := eq_of_addSet done
  have absent : name ∉ (ws.project p).sets.map Prod.fst :=
    mt Keyed.lookup_isSome_iff_mem.2 (Bool.eq_false_iff.1 free)
  refine ⟨absent, rfl, Array.size_push _, set_newSet ws { name, project := p }, fun q => ?_⟩
  rcases project_updateProject_cases (ws.newSet { name, project := p }).2 p q _ with
    same | ⟨rfl, changed⟩
  · exact .inl same
  · exact .inr ⟨rfl, changed⟩

namespace Rostered

/-- A roster stays right where nothing is lost, and the model has only attached projects under their
names. -/
theorem of_retains (h : ws.Rostered) (retains : Retains ws ws')
    (inModel : ∀ entry ∈ ws'.model.projects, entry ∈ ws.model.projects ∨ ws'.HasProject entry.2 ∧
      (ws'.project entry.2).name = entry.1 ∧ (ws'.project entry.2).isAttached = true) :
    ws'.Rostered where
  inModel := by
    intro entry listed
    rcases inModel entry listed with old | new
    · obtain ⟨made, name, attached⟩ := h.inModel entry old
      obtain ⟨made', name', attached'⟩ := retains.projects _ made
      exact ⟨made', name'.trans name, attached' attached⟩
    · exact new
  sets := by
    intro p entry listed
    obtain ⟨known, name, owner⟩ := h.sets p entry ((retains.lists p).2.subset listed)
    obtain ⟨known', name', owner'⟩ := retains.sets _ known
    exact ⟨known', name'.trans name, owner'.trans owner⟩
  once := fun p => ⟨(h.once p).1.sublist ((retains.lists p).1.map _),
    (h.once p).2.sublist ((retains.lists p).2.map _)⟩

/-- A new config joins the roster of its project. -/
theorem insertConfig (h : ws.Rostered) {name : String} {origin : ConfigOrigin} {id : ConfigId}
    (done : ws.insertConfig p name origin = .ok (id, ws')) : ws'.Rostered := by
  obtain ⟨-, -, -, projects⟩ := insertConfig_eq_ok done
  obtain ⟨free, -⟩ := held_insertConfig done
  have sets : ws'.sets = ws.sets := by
    obtain ⟨-, -, rfl⟩ := eq_of_insertConfig done
    rfl
  have cell : ∀ q, (ws'.project q).isAttached = (ws.project q).isAttached ∧
      (ws'.project q).sets = (ws.project q).sets := by
    intro q
    rcases projects q with same | ⟨rfl, more⟩
    · rw [same]
      exact ⟨rfl, rfl⟩
    · rw [more]
      exact ⟨rfl, rfl⟩
  refine ⟨fun entry listed => ?_, fun q entry listed => ?_, fun q => ⟨?_, ?_⟩⟩
  · rw [model_insertConfig done] at listed
    obtain ⟨made, name, attached⟩ := h.inModel entry listed
    obtain ⟨made', name'⟩ := (keepsNames_insertConfig done).projects _ made
    exact ⟨made', name'.trans name, (cell entry.2).1.trans attached⟩
  · rw [(cell q).2] at listed
    rw [HasSet, sets, set_congr sets]
    exact h.sets q entry listed
  · rcases projects q with same | ⟨rfl, more⟩
    · exact same ▸ (h.once q).1
    · rw [more, List.map_append]
      refine List.nodup_append.2 ⟨(h.once q).1, List.nodup_singleton _, ?_⟩
      rintro other listed _ new rfl
      cases List.mem_singleton.1 new
      obtain ⟨entry, held, same⟩ := List.mem_map.1 listed
      exact free entry held same
  · rw [(cell q).2]
    exact (h.once q).2

/-- So does a new set. -/
theorem addSet (h : ws.Rostered) {name : String} {id : SetId}
    (done : ws.addSet p name = .ok (id, ws')) : ws'.Rostered := by
  obtain ⟨free, last, size, sets, projects⟩ := addSet_cases done
  have cell : ∀ q, (ws'.project q).isAttached = (ws.project q).isAttached ∧
      (ws'.project q).configs = (ws.project q).configs := by
    intro q
    rcases projects q with same | ⟨rfl, more⟩
    · rw [same]
      exact ⟨rfl, rfl⟩
    · rw [more]
      exact ⟨rfl, rfl⟩
  have old : ∀ s, ws.HasSet s → ws'.HasSet s ∧ ws'.set s = ws.set s := by
    intro s known
    rw [HasSet, size, sets, if_neg (Nat.ne_of_lt known)]
    exact ⟨Nat.lt_succ_of_lt known, rfl⟩
  refine ⟨fun entry listed => ?_, fun q entry listed => ?_, fun q => ⟨?_, ?_⟩⟩
  · rw [model_addSet done] at listed
    obtain ⟨made, name, attached⟩ := h.inModel entry listed
    obtain ⟨made', name'⟩ := (keepsNames_addSet done).projects _ made
    exact ⟨made', name'.trans name, (cell entry.2).1.trans attached⟩
  · have before : ∀ entry ∈ (ws.project q).sets, ws'.HasSet entry.2 ∧
        (ws'.set entry.2).name = entry.1 ∧ (ws'.set entry.2).project = q := by
      intro entry listed
      obtain ⟨known, name, owner⟩ := h.sets q entry listed
      obtain ⟨known', same⟩ := old entry.2 known
      rw [same]
      exact ⟨known', name, owner⟩
    rcases projects q with same | ⟨rfl, more⟩
    · exact before entry (same ▸ listed)
    · rw [more] at listed
      rcases List.mem_append.1 listed with there | new
      · exact before entry there
      · cases List.mem_singleton.1 new
        rw [HasSet, size, last, sets, if_pos last]
        exact ⟨Nat.lt_succ_self _, rfl, rfl⟩
  · rw [(cell q).2]
    exact (h.once q).1
  · rcases projects q with same | ⟨rfl, more⟩
    · exact same ▸ (h.once q).2
    · rw [more, List.map_append]
      refine List.nodup_append.2 ⟨(h.once q).2, List.nodup_singleton _, ?_⟩
      rintro other listed _ new rfl
      cases List.mem_singleton.1 new
      exact free listed

/-- And a set of a locator. -/
theorem addLocatedSet (h : ws.Rostered) {locator name : String} {id : SetId}
    (done : ws.addLocatedSet p locator name = .ok (id, ws')) : ws'.Rostered := by
  obtain ⟨added, first, rfl⟩ := eq_of_addLocatedSet done
  exact (h.addSet first).of_retains (retains_updateProject _ p (fun _ => rfl)
    (fun _ attached => attached) fun _ => ⟨.refl _, .refl _⟩) fun _ listed => .inl listed

/-- A project that was made is added to the model, and sees the others from then on. -/
theorem addProject (h : ws.Rostered) (done : ws.addProject p = .ok ws')
    (made : ws.HasProject p) : ws'.Rostered := by
  have retains := retains_addProject done
  refine h.of_retains retains fun entry listed => ?_
  rw [projects_addProject done] at listed
  rcases List.mem_append.1 listed with old | new
  · exact .inl old
  · cases List.mem_singleton.1 new
    obtain ⟨made', name, -⟩ := retains.projects p made
    obtain ⟨-, -, rfl⟩ := eq_of_addProject done
    have cell := project_updateProject made p
      fun cell : ProjectCell => { cell with isAttached := true }
    rw [if_pos rfl] at cell
    exact .inr ⟨made', name, congrArg ProjectCell.isAttached cell⟩

end Rostered

/-! ## Finding by name -/

/-- A project of the model. -/
def InModel (ws : Workspace σ) (p : ProjectId) : Prop := p ∈ ws.model.projects.map Prod.snd

instance (ws : Workspace σ) (p : ProjectId) : Decidable (ws.InModel p) :=
  inferInstanceAs (Decidable (p ∈ ws.model.projects.map Prod.snd))

namespace Rostered

variable (h : ws.Rostered)
include h

/-- The model lists a project under its name. -/
theorem entry_of_inModel (inside : ws.InModel p) :
    ((ws.project p).name, p) ∈ ws.model.projects := by
  obtain ⟨⟨name, p⟩, listed, rfl⟩ := List.mem_map.1 inside
  rw [(h.inModel (name, p) listed).2.1]
  exact listed

/-- The names by which the model lists its projects are their names. -/
theorem names_eq : ws.model.projects.map Prod.fst
    = (ws.model.projects.map Prod.snd).map fun p => (ws.project p).name := by
  rw [List.map_map]
  refine List.map_congr_left fun entry listed => ?_
  exact (h.inModel entry listed).2.1.symm

/-- Sets are listed under the names that they have. -/
theorem setNames_eq (p : ProjectId) :
    (ws.project p).sets.map Prod.fst = (ws.setsOf p).map fun s => (ws.set s).name := by
  rw [setsOf, List.map_map]
  refine List.map_congr_left fun entry listed => ?_
  exact (h.sets p entry listed).2.1.symm

/-- The sets that a project lists are its own. -/
theorem project_of_mem_setsOf {s : SetId} (listed : s ∈ ws.setsOf p) :
    (ws.set s).project = p := by
  obtain ⟨entry, there, rfl⟩ := List.mem_map.1 listed
  exact (h.sets p entry there).2.2

/-- No two sets of a project have one name. -/
theorem nodup_setNames (p : ProjectId) : ((ws.setsOf p).map fun s => (ws.set s).name).Nodup := by
  rw [← h.setNames_eq]
  exact (h.once p).2

/-- So no set is listed twice. -/
theorem nodup_setsOf (p : ProjectId) : (ws.setsOf p).Nodup :=
  (h.nodup_setNames p).of_map _

/-- Nor is a config. -/
theorem nodup_configsOf (holds : ws.Holds) (p : ProjectId) : (ws.configsOf p).Nodup := by
  have names : (ws.project p).configs.map Prod.fst
      = (ws.configsOf p).map fun id => (ws.config id).name := by
    rw [configsOf, List.map_map]
    refine List.map_congr_left fun entry listed => ?_
    exact (holds.own p entry listed).2.1.symm
  have once := (h.once p).1
  rw [names] at once
  exact once.of_map _

variable (orderly : ws.model.Orderly)
include orderly

/-- No two projects of the model have one name. -/
theorem nodup_names :
    ((ws.model.projects.map Prod.snd).map fun p => (ws.project p).name).Nodup := by
  rw [← h.names_eq]
  exact orderly.projects

/-- Projects of the model are told apart by their names. -/
theorem eq_of_name (inside : ws.InModel p) (inside' : ws.InModel q)
    (same : (ws.project p).name = (ws.project q).name) : p = q :=
  List.inj_on_of_nodup_map (h.nodup_names orderly) inside inside' same

/-- A project of the model is found under its name. -/
theorem lookup_name (inside : ws.InModel p) :
    ws.model.projects.lookup (ws.project p).name = some p :=
  Keyed.lookup_of_mem orderly.projects (h.entry_of_inModel inside)

/-- What projects own, each of them once, the projects of the model own once together. -/
theorem nodup_flatMap {ι : Type} {owned : ProjectId → List ι} (owner : ι → ProjectId)
    (once : ∀ p, (owned p).Nodup) (own : ∀ p, ∀ i ∈ owned p, owner i = p) :
    ((ws.model.projects.map Prod.snd).flatMap owned).Nodup := by
  rw [List.nodup_flatMap]
  refine ⟨fun p _ => once p, ?_⟩
  refine ((h.nodup_names orderly).of_map _).imp ?_
  intro p q differ i here there
  exact differ ((own p i here).symm.trans (own q i there))

/-- No config is in the model twice. -/
theorem nodup_modelConfigs (holds : ws.Holds) : (ws.modelConfigs.map Prod.snd).Nodup := by
  have configs : ws.modelConfigs.map Prod.snd
      = (ws.model.projects.map Prod.snd).flatMap ws.configsOf := by
    simp [modelConfigs, List.map_flatMap, List.flatMap_map, Function.comp_def]
  rw [configs]
  refine h.nodup_flatMap orderly (fun id => (ws.config id).project) (h.nodup_configsOf holds) ?_
  intro p id held
  exact holds.project_of_mem_configsOf held

end Rostered

end BeanWiring.Workspace
