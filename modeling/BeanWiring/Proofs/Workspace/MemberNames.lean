/-
# Names of members

A config has two names that a set can have it by: its own, in the sets of its project, and its
external one, which begins with the name of the project.  A config keeps both names for good.  So
whatever a set was merged from is still named by some member of the set, even if nothing finds it
under the name any more.

Main statements:

* `KeepsNames` : projects go by the names that they have, and merged views are at most forgotten;
* `ManagementStep.keepsNames`, `ContentStep.forgets_or_merges` : what steps do to names;
* `FreelyReachable.traced` : a set has a member that names each config it was merged from;
* `FreelyReachable.named` : what a set was merged from is named by its members.
-/
import BeanWiring.Proofs.Text.Searching
import BeanWiring.Proofs.Workspace.Dependents
import BeanWiring.Proofs.Workspace.Holdings

namespace BeanWiring

/-! ## External names -/

/-- The external name, letter by letter: a slash, the project, a slash and the config. -/
theorem toList_externalName (project config : String) :
    (externalName project config).toList
      = '/' :: (project.toList ++ ['/']) ++ config.toList := by
  simp [externalName, String.toList_append]

/-- A name that stands for one of the project's own is its external name. -/
theorem eq_externalName_of_localName? {project external own : String}
    (h : localName? project external = some own) : external = externalName project own := by
  unfold localName? at h
  split at h
  · rename_i rest stripped
    cases Option.some.inj h
    rw [← String.toList_inj, toList_externalName, String.toList_ofList]
    exact Text.stripStart?_eq_some_iff.1 stripped
  · cases h

/-- A name that can be taken apart is the external name of its parts. -/
theorem eq_externalName_of_splitExternal? {name project config : String}
    (h : splitExternal? name = some (project, config)) :
    project ≠ "" ∧ name = externalName project config := by
  unfold splitExternal? at h
  split at h
  · rename_i rest slashed
    split at h
    · rename_i first second cut
      split at h
      · cases h
      · rename_i filled
        cases Option.some.inj h
        refine ⟨fun empty => filled (.inl ?_), ?_⟩
        · simpa using congrArg String.toList empty
        · rw [← String.toList_inj, toList_externalName, slashed, Text.eq_of_cutAt? cut]
          simp
    · cases h
  · cases h

/-- An external name is longer than the name. -/
theorem externalName_ne (project config : String) : externalName project config ≠ config := by
  intro same
  have length := congrArg (fun name => name.toList.length) same
  simp only [toList_externalName, List.length_append, List.length_cons] at length
  omega

namespace Workspace

variable {σ : Type} {ws ws' ws'' : Workspace σ} {p : ProjectId}

/-! ## What names stand for -/

/-- A config has the name, in its project or outside of it. -/
def Names (ws : Workspace σ) (name : String) (c : ConfigId) : Prop :=
  name = (ws.config c).name ∨
    name = externalName (ws.project (ws.config c).project).name (ws.config c).name

/-- A config has the name in a project: as one of the project's own, or by its external name. -/
def NamesIn (ws : Workspace σ) (p : ProjectId) (name : String) (c : ConfigId) : Prop :=
  name = (ws.config c).name ∧ (ws.config c).project = p ∨
    name = externalName (ws.project (ws.config c).project).name (ws.config c).name

/-- A name that stands for a config within its project stands for it in the workspace. -/
theorem NamesIn.names {name : String} {c : ConfigId} (h : ws.NamesIn p name c) :
    ws.Names name c :=
  h.imp_left And.left

/-- A project that was made goes by the name.  No project is found under the empty name. -/
def GoesBy (ws : Workspace σ) (name : String) (p : ProjectId) : Prop :=
  name ≠ "" → ws.HasProject p ∧ (ws.project p).name = name

section Resolve

variable (holds : ws.Holds) {name : String} {c : ConfigId}
include holds

/-- A config found under a name bears that name and belongs to the project it was found in. -/
theorem Holds.of_configOf? (found : ws.configOf? p name = some c) :
    (ws.config c).name = name ∧ (ws.config c).project = p ∧ ws.HasProject p := by
  have held := mem_of_configOf? found
  obtain ⟨-, named, project⟩ := holds.own p (name, c) held
  exact ⟨named, project, hasProject_of_mem held⟩

variable (known : ∀ entry ∈ ws.model.projects, ws.GoesBy entry.1 entry.2)
include known

/-- A config that a name stands for in a project has the name there. -/
theorem Holds.names_of_resolveConfig? (found : ws.resolveConfig? p name = some c) :
    ws.HasProject (ws.config c).project ∧ ws.NamesIn p name c := by
  unfold resolveConfig? at found
  dsimp only at found
  split at found
  · obtain ⟨named, project, made⟩ := holds.of_configOf? found
    exact ⟨project ▸ made, .inl ⟨named.symm, project⟩⟩
  · split at found
    · rename_i own isOwn
      obtain ⟨named, project, made⟩ := holds.of_configOf? found
      refine ⟨project ▸ made, .inr ?_⟩
      rw [named, project]
      exact eq_externalName_of_localName? isOwn
    · split at found
      · obtain ⟨⟨q, c'⟩, external, rfl⟩ := Option.map_eq_some_iff.1 found
        simp only [externalConfig?, Option.bind_eq_bind, Option.bind_eq_some_iff] at external
        obtain ⟨⟨projectName, own⟩, split, q', inModel, c'', found', same⟩ := external
        cases Option.some.inj same
        obtain ⟨nonempty, external⟩ := eq_externalName_of_splitExternal? split
        obtain ⟨before, after, projects, -⟩ := List.lookup_eq_some_iff.1 inModel
        have listed : (projectName, q) ∈ ws.model.projects :=
          projects ▸ List.mem_append_right _ List.mem_cons_self
        obtain ⟨named, project, made⟩ := holds.of_configOf? found'
        refine ⟨project ▸ made, .inr ?_⟩
        rw [named, project, (known _ listed nonempty).2]
        exact external
      · cases found

/-- What a set would be merged from has the name of a member. -/
theorem Holds.names_of_memberConfigs {cell : SetCell} (member : c ∈ ws.memberConfigs cell) :
    ws.HasProject (ws.config c).project ∧ ∃ name ∈ cell.settings.members,
      ws.NamesIn cell.project name c := by
  unfold memberConfigs at member
  split at member
  · obtain ⟨name, listed, found⟩ := List.mem_filterMap.1 member
    obtain ⟨made, names⟩ := holds.names_of_resolveConfig? known found
    exact ⟨made, name, listed, names⟩
  · cases member

end Resolve

/-! ## Names that are kept -/

/-- Projects go by the names that they have, also in the model; and merged views are at most
forgotten. -/
structure KeepsNames (ws ws' : Workspace σ) : Prop where
  projects : ∀ p, ws.HasProject p → ws'.HasProject p ∧ (ws'.project p).name = (ws.project p).name
  inModel : ∀ entry ∈ ws'.model.projects,
    entry ∈ ws.model.projects ∨ ws'.GoesBy entry.1 entry.2
  sets : ∀ id m, (ws'.set id).merged = some m → ws'.set id = ws.set id

namespace KeepsNames

/-- A project goes by its name as long as names are kept. -/
theorem goesBy (h : KeepsNames ws ws') {name : String} (known : ws.GoesBy name p) :
    ws'.GoesBy name p := by
  intro nonempty
  obtain ⟨made, named⟩ := known nonempty
  obtain ⟨made', same⟩ := h.projects p made
  exact ⟨made', same.trans named⟩

/-- What is done outside projects and sets, as long as the model is given no projects. -/
theorem of_same (projects : ws'.projects = ws.projects) (sets : ws'.sets = ws.sets)
    (inModel : ∀ entry ∈ ws'.model.projects, entry ∈ ws.model.projects) : KeepsNames ws ws' where
  projects := by
    intro p made
    rw [HasProject, project, projects]
    exact ⟨made, rfl⟩
  inModel := fun entry listed => .inl (inModel entry listed)
  sets := fun id _ _ => set_congr sets id

theorem refl (ws : Workspace σ) : KeepsNames ws ws :=
  of_same rfl rfl fun _ listed => listed

theorem trans (h : KeepsNames ws ws') (h' : KeepsNames ws' ws'') : KeepsNames ws ws'' where
  projects := by
    intro p made
    obtain ⟨made', name⟩ := h.projects p made
    obtain ⟨made'', name'⟩ := h'.projects p made'
    exact ⟨made'', name'.trans name⟩
  inModel := by
    intro entry listed
    rcases h'.inModel entry listed with before | known
    · exact (h.inModel entry before).imp_right h'.goesBy
    · exact .inr known
  sets := by
    intro id m merged
    have same := h'.sets id m merged
    rw [same] at merged ⊢
    exact h.sets id m merged

end KeepsNames

/-- An edit of a project cell that leaves its name alone keeps every name. -/
theorem keepsNames_updateProject (ws : Workspace σ) (p : ProjectId)
    {f : ProjectCell → ProjectCell} (name : ∀ cell, (f cell).name = cell.name) :
    KeepsNames ws (ws.updateProject p f) where
  projects := by
    intro q made
    refine ⟨hasProject_updateProject.2 made, ?_⟩
    rcases project_updateProject_cases ws p q f with same | ⟨rfl, changed⟩
    · rw [same]
    · rw [changed, name]
  inModel := fun _ listed => .inl listed
  sets := fun _ _ _ => rfl

/-- A new project cell keeps the names there were. -/
theorem keepsNames_useProject (ws : Workspace σ) (cell : ProjectCell) :
    KeepsNames ws (ws.useProject cell).2 where
  projects := by
    intro p made
    have cells : (ws.useProject cell).2.project p
        = if p.index = ws.projects.size then cell else ws.project p :=
      project_push ws cell p
    have size : (ws.useProject cell).2.projects.size = ws.projects.size + 1 := Array.size_push cell
    have made : p.index < ws.projects.size := made
    rw [cells, if_neg (Nat.ne_of_lt made), HasProject, size]
    exact ⟨Nat.lt_succ_of_lt made, rfl⟩
  inModel := fun _ listed => .inl listed
  sets := fun _ _ _ => rfl

/-! ### Configs -/

/-- A new config keeps the names there were. -/
theorem keepsNames_insertConfig {name : String} {origin : ConfigOrigin} {id : ConfigId}
    (done : ws.insertConfig p name origin = .ok (id, ws')) : KeepsNames ws ws' := by
  obtain ⟨-, -, rfl⟩ := eq_of_insertConfig done
  have made : KeepsNames ws (ws.newConfig { name, origin, project := p }).2 :=
    .of_same rfl rfl fun _ listed => listed
  exact made.trans (keepsNames_updateProject _ p fun _ => rfl)

theorem keepsNames_addConfigs (p : ProjectId) (names : List String) (ws : Workspace σ) :
    KeepsNames ws (ws.addConfigs p names) :=
  addConfigs_preserves (fun added keeps => keeps.trans (keepsNames_insertConfig added)) names
    (.refl ws)

theorem keepsNames_addDetected (p : ProjectId) (locator : String) (names : List String)
    (ws : Workspace σ) : KeepsNames ws (ws.addDetected p locator names).2 :=
  addDetected_preserves (fun added keeps => keeps.trans (keepsNames_insertConfig added)) names
    (.refl ws)

/-- The release of configs keeps the names of those that stay. -/
theorem Releases.keepsNames {names : List String} (h : Releases ws ws' p names) :
    KeepsNames ws ws' where
  projects := by
    intro q made
    refine ⟨h.hasProject made, ?_⟩
    rw [h.project]
    split
    · rename_i same
      rw [same]
      rfl
    · rfl
  inModel := by
    intro entry listed
    rw [h.rest] at listed
    exact .inl listed
  sets := by
    intro id m merged
    rw [h.sets] at merged ⊢
    split
    · rename_i within
      rw [if_pos within] at merged
      exact SetCell.dropMembers_of_merged merged
    · rfl

/-! ### Sets -/

/-- A new set keeps every name. -/
theorem keepsNames_addSet {name : String} {id : SetId}
    (done : ws.addSet p name = .ok (id, ws')) : KeepsNames ws ws' := by
  obtain ⟨-, -, rfl⟩ := eq_of_addSet done
  have made : KeepsNames ws (ws.newSet { name, project := p }).2 := by
    refine ⟨fun _ there => ⟨there, rfl⟩, fun _ listed => .inl listed, fun id m merged => ?_⟩
    rw [set_newSet] at merged ⊢
    split
    · rename_i new
      rw [if_pos new] at merged
      cases merged
    · rfl
  exact made.trans (keepsNames_updateProject _ p fun _ => rfl)

/-- The set of a locator keeps every name. -/
theorem keepsNames_addLocatedSet {locator name : String} {id : SetId}
    (done : ws.addLocatedSet p locator name = .ok (id, ws')) : KeepsNames ws ws' := by
  obtain ⟨added, first, rfl⟩ := eq_of_addLocatedSet done
  exact (keepsNames_addSet first).trans (keepsNames_updateProject _ p fun _ => rfl)

theorem keepsNames_removeSet (p : ProjectId) (name : String) (ws : Workspace σ) :
    KeepsNames ws (ws.removeSet p name).2 :=
  keepsNames_updateProject ws p fun _ => rfl

theorem keepsNames_removeDetected (p : ProjectId) (locator : String) (ws : Workspace σ) :
    KeepsNames ws (ws.removeDetected p locator) :=
  removeDetected_preserves
    (fun names keeps => keeps.trans (releases_removeConfigs _ p names).keepsNames)
    (fun keeps => keeps.trans (keepsNames_updateProject _ p fun _ => rfl))
    (fun name keeps => keeps.trans (keepsNames_removeSet p name _)) (.refl ws)

/-! ### The model -/

/-- A project that joins the model keeps the names there were. -/
theorem keepsNames_addProject (done : ws.addProject p = .ok ws') : KeepsNames ws ws' := by
  obtain ⟨-, -, rfl⟩ := eq_of_addProject done
  obtain ⟨projects, -, sets⟩ : KeepsNames ws
      (ws.updateProject p fun cell => { cell with isAttached := true }) :=
    keepsNames_updateProject ws p fun _ => rfl
  refine ⟨projects, fun entry listed => ?_, sets⟩
  rcases List.mem_append.1 listed with old | new
  · exact .inl old
  · cases List.mem_singleton.1 new
    -- A project that was never made has the empty name.
    refine .inr fun nonempty => projects p ?_
    by_contra outside
    rw [project_of_not_hasProject outside] at nonempty
    exact nonempty rfl

/-- Closing the model enters no project. -/
theorem projects_closed (m : Model) : ∀ entry ∈ m.closed.projects, entry ∈ m.projects := by
  intro entry listed
  unfold Model.closed at listed
  split at listed
  · cases listed
  · exact listed

/-- Opening the model leaves its projects as they are. -/
theorem projects_opened (m : Model) : m.opened.projects = m.projects := by
  unfold Model.opened
  split
  · rfl
  · rfl

/-- A project that leaves the model takes its own name along and no other. -/
theorem keepsNames_removeProject {name : String}
    (done : ws.removeProject name = .ok (p, ws')) : KeepsNames ws ws' := by
  obtain ⟨-, -, rfl⟩ := eq_of_removeProject done
  exact .of_same rfl rfl fun _ listed => (List.mem_filter.1 listed).1

/-- Management keeps names. -/
theorem ManagementStep.keepsNames (step : ManagementStep ws ws') : KeepsNames ws ws' := by
  cases step with
  | useProject => exact keepsNames_useProject ws _
  | dropProject => exact .of_same rfl rfl fun _ listed => listed
  | addConfig done => exact keepsNames_insertConfig done
  | addConfigs p names => exact keepsNames_addConfigs p names ws
  | removeConfig p name =>
    by_cases there : ws.hasConfig p name = true
    · exact (releases_removeConfig there).keepsNames
    · rw [Workspace.removeConfig, if_neg there]
      exact .refl ws
  | replaceDetected p locator names =>
    exact (releases_removeConfigs ws p _).keepsNames.trans
      (keepsNames_addDetected p locator names _)
  | removeDetected p locator => exact keepsNames_removeDetected p locator ws
  | addSet done => exact keepsNames_addSet done
  | addLocatedSet done => exact keepsNames_addLocatedSet done
  | removeSet p name => exact keepsNames_removeSet p name ws
  | openModel =>
    exact .of_same rfl rfl fun _ listed => projects_opened ws.model ▸ listed
  | closeModel => exact .of_same rfl rfl (projects_closed ws.model)
  | addProject done => exact keepsNames_addProject done
  | removeProject done => exact keepsNames_removeProject done
  | subscribe => exact .of_same rfl rfl fun _ listed => listed
  | unsubscribe => exact .of_same rfl rfl fun _ listed => listed

/-! ## What sets were merged from -/

/-- The model knows projects by their names, and what a set was merged from has the name of a
member. -/
structure Named (ws : Workspace σ) : Prop where
  inModel : ∀ entry ∈ ws.model.projects, ws.GoesBy entry.1 entry.2
  merged : ∀ id m, (ws.set id).merged = some m → ∀ c ∈ m.members,
    ws.HasProject (ws.config c).project ∧
      ∃ name ∈ (ws.set id).settings.members, ws.Names name c

/-- The model knows projects by their names, and what a set was merged from has the name of a
member in the project of the set. -/
structure Traced (ws : Workspace σ) : Prop where
  inModel : ∀ entry ∈ ws.model.projects, ws.GoesBy entry.1 entry.2
  merged : ∀ id m, (ws.set id).merged = some m → ∀ c ∈ m.members,
    ws.HasProject (ws.config c).project ∧
      ∃ name ∈ (ws.set id).settings.members, ws.NamesIn (ws.set id).project name c

/-- The names of configs and projects agree in every traced workspace. -/
theorem Traced.named (h : ws.Traced) : ws.Named where
  inModel := h.inModel
  merged := by
    intro id m merged c member
    obtain ⟨made, name, listed, names⟩ := h.merged id m merged c member
    exact ⟨made, name, listed, names.names⟩

/-- Names are those that they were, where configs and projects are called as before. -/
theorem NamesIn.congr {name : String} {c : ConfigId} (h : ws.NamesIn p name c)
    (named : (ws'.config c).name = (ws.config c).name)
    (project : (ws'.config c).project = (ws.config c).project)
    (projectName : (ws'.project (ws.config c).project).name
      = (ws.project (ws.config c).project).name) : ws'.NamesIn p name c := by
  rw [NamesIn, named, project, projectName]
  exact h

/-- Where projects and configs keep their names, so does what sets were merged from. -/
theorem Traced.of_keepsNames (h : ws.Traced) (steady : ws.Steady) (keeps : KeepsNames ws ws')
    (frames : KeepsFrames ws ws') : ws'.Traced where
  inModel := by
    intro entry listed
    rcases keeps.inModel entry listed with before | known
    · exact keeps.goesBy (h.inModel entry before)
    · exact known
  merged := by
    intro id m merged c member
    have same := keeps.sets id m merged
    rw [same] at merged ⊢
    obtain ⟨made, name, listed, names⟩ := h.merged id m merged c member
    obtain ⟨-, named, project⟩ := frames c (steady.hasConfig merged member)
    obtain ⟨made', projectName⟩ := keeps.projects _ made
    rw [project]
    exact ⟨made', name, listed, names.congr named project projectName⟩

/-- What only forgets keeps names. -/
theorem Forgets.keepsNames (h : Forgets ws ws')
    (made : ∀ p, ws.HasProject p → ws'.HasProject p) : KeepsNames ws ws' where
  projects := fun p there => ⟨made p there, (h.projects p).1⟩
  inModel := fun _ listed => .inl (h.inModel ▸ listed)
  sets := h.sets

section Steps

variable [DocumentSource σ] [FiniteSource σ]

/-- A change of content only forgets, or merges a set for a question. -/
theorem ContentStep.forgets_or_merges (step : ContentStep ws ws') (grounded : ws.Grounded) :
    Forgets ws ws' ∨ ∃ id, ws' = ((readSet id).run ws).2 := by
  cases step with
  | documents source =>
    have safe : Safe ws { ws with source } := safe_of_same rfl rfl rfl rfl rfl
    exact .inl safe.forgets
  | reloadConfig id own => exact .inl (safe_reloadConfig own).forgets
  | reload name done => exact .inl (safe_reload grounded done).forgets
  | refresh names done => exact .inl (safe_refresh grounded done).forgets
  | enableImports p enabled => exact .inl (safe_enableImports grounded p enabled).forgets
  | addMember id name => exact .inl (safe_addMember ws id name).forgets
  | removeMember id name => exact .inl (safe_removeMember ws id name).forgets
  | allowBeanOverriding id allowed => exact .inl (safe_changeSettings ws id _).forgets
  | allowAliasOverriding id allowed => exact .inl (safe_changeSettings ws id _).forgets
  | markIncomplete id isIncomplete => exact .inl (safe_changeSettings ws id _).forgets
  | resetSet id => exact .inl (safe_resetSet ws id).forgets
  | query step => exact (step.effect grounded.toWired).imp_left fun reads => reads.toExtends.forgets

/-- A set that is merged is merged from what its members name. -/
theorem Traced.readSet (h : ws.Traced) (steady : ws.Steady) (holds : ws.Holds) (id : SetId) :
    ((readSet id).run ws).2.Traced := by
  cases unmerged : (ws.set id).merged with
  | some m =>
    rw [readSet_of_merged unmerged]
    exact h
  | none =>
    obtain ⟨ext, -, members, -⟩ := steady.mergeSet id
    have made : ∀ p, ws.HasProject p → ((mergeSet id).run ws).2.HasProject p := by
      intro p there
      rw [HasProject, ext.rest]
      exact there
    have keeps := ext.forgets.keepsNames made
    have before := h.of_keepsNames steady keeps ext.keepsFrames
    rw [run_readSet_of_unmerged unmerged]
    refine ⟨before.inModel, fun other m merged c member => ?_⟩
    rcases set_noteMerged_cases ((mergeSet id).run ws).2 id other ((mergeSet id).run ws).1 with
      same | ⟨rfl, changed⟩
    · rw [same] at merged ⊢
      exact before.merged other m merged c member
    · rw [changed] at merged ⊢
      cases Option.some.inj merged
      rw [members] at member
      obtain ⟨there, name, listed, names⟩ := holds.names_of_memberConfigs h.inModel member
      obtain ⟨-, named, project⟩ := ext.keepsFrames c (steady.memberConfigs member).1
      obtain ⟨there', projectName⟩ := keeps.projects _ there
      refine ⟨project ▸ there', name, ?_, ?_⟩
      · rw [ext.set]
        exact listed
      · dsimp only
        rw [ext.set]
        exact names.congr named project projectName

/-- However a workspace has come about, its sets were merged from configs that their members
name. -/
theorem FreelyReachable.traced (h : FreelyReachable ws) : ws.Traced := by
  induction h with
  | start source =>
    refine ⟨fun entry listed => ?_, fun id m merged => ?_⟩
    · cases listed
    · cases merged
  | @content ws ws' before step ih =>
    have steady := before.steady
    rcases step.forgets_or_merges steady.toGrounded with forgets | ⟨id, rfl⟩
    · rcases step.changes steady.toGrounded with ⟨source, rfl⟩ | changes
      · exact ⟨ih.inModel, ih.merged⟩
      · have keeps : KeepsNames ws ws' := forgets.keepsNames fun _ => changes.hasProject
        exact ih.of_keepsNames steady keeps changes.keepsFrames
    · exact ih.readSet steady before.holds id
  | management before step ih =>
    exact ih.of_keepsNames before.steady step.keepsNames step.changes.keepsFrames
  | @reloadConfig ws before id ih =>
    have changes := changes_reloadConfig ws id
    have keeps := (forgets_reloadConfig ws id).keepsNames fun _ => changes.hasProject
    exact ih.of_keepsNames before.steady keeps changes.keepsFrames

/-- The names of configs and projects agree in every reachable workspace. -/
theorem FreelyReachable.named (h : FreelyReachable ws) : ws.Named :=
  h.traced.named

end Steps

end Workspace

end BeanWiring
