/-
# What projects hold

A project holds configs under their own names, each name once.  When a config is removed, the
project lets go of it and its sets drop the name; the config itself and everything else stay as
they are.

Main statements:

* `FreelyReachable.holds` : how every project of a workspace holds its configs;
* `Releases` : what changes when configs are let go;
* `releases_removeConfig`, `releases_removeConfigs` : to remove configs is to release them.
-/
import BeanWiring.Proofs.Workspace.Changes

namespace BeanWiring

/-! ## Dropping names -/

/-- To drop names twice is to drop all of them at once. -/
theorem Keyed.filter_notMem_append {κ α : Type} [DecidableEq κ] (key : α → κ) (xs : List α)
    (names names' : List κ) : (xs.filter (key · ∉ names)).filter (key · ∉ names')
      = xs.filter (key · ∉ names ++ names') := by
  rw [List.filter_filter]
  refine List.filter_congr fun x _ => ?_
  simp only [List.mem_append, not_or, Bool.decide_and, Bool.and_comm]

namespace SetCell

/-- Drops members of a set; a set that has none of them keeps its merged view. -/
def dropMembers (names : List String) (cell : SetCell) : SetCell :=
  { cell with
    settings := { cell.settings with members := cell.settings.members.filter (· ∉ names) }
    merged := if cell.settings.members.any (· ∈ names) then none else cell.merged }

variable {names names' : List String} {cell : SetCell}

/-- A set that has none of the members stays as it is. -/
theorem dropMembers_of_forall (absent : ∀ name ∈ cell.settings.members, name ∉ names) :
    cell.dropMembers names = cell := by
  have kept : cell.settings.members.filter (· ∉ names) = cell.settings.members :=
    List.filter_eq_self.2 fun name member => by simpa using absent name member
  have untouched : ¬cell.settings.members.any (· ∈ names) = true := by simpa using absent
  rw [dropMembers, kept, if_neg untouched]

/-- To drop no names is to drop nothing. -/
theorem dropMembers_nil (cell : SetCell) : cell.dropMembers [] = cell :=
  dropMembers_of_forall fun _ _ => List.not_mem_nil

/-- Where some member is dropped, the merged view is forgotten. -/
theorem dropMembers_of_merged {m : MergedSet ConfigId}
    (merged : (cell.dropMembers names).merged = some m) : cell.dropMembers names = cell := by
  refine dropMembers_of_forall fun name member dropped => ?_
  have some : cell.settings.members.any (· ∈ names) = true :=
    List.any_eq_true.2 ⟨name, member, decide_eq_true dropped⟩
  rw [dropMembers, if_pos some] at merged
  cases merged

/-- It does not matter how often and in which order names are dropped. -/
theorem dropMembers_congr (same : ∀ name, name ∈ names ↔ name ∈ names') (cell : SetCell) :
    cell.dropMembers names = cell.dropMembers names' := by
  simp only [dropMembers, same]

/-- To drop names and then others is to drop all of them. -/
theorem dropMembers_dropMembers (names names' : List String) (cell : SetCell) :
    (cell.dropMembers names).dropMembers names' = cell.dropMembers (names ++ names') := by
  have members : (cell.settings.members.filter (· ∉ names)).filter (· ∉ names')
      = cell.settings.members.filter (· ∉ names ++ names') :=
    Keyed.filter_notMem_append id cell.settings.members names names'
  by_cases first : cell.settings.members.any (· ∈ names) = true
  · have both : cell.settings.members.any (· ∈ names ++ names') = true := by
      obtain ⟨name, member, listed⟩ := List.any_eq_true.1 first
      exact List.any_eq_true.2 ⟨name, member, by simpa using .inl (of_decide_eq_true listed)⟩
    have once : cell.dropMembers names = { cell with
        settings := { cell.settings with members := cell.settings.members.filter (· ∉ names) }
        merged := none } := by
      rw [dropMembers, if_pos first]
    rw [once, dropMembers, dropMembers, if_pos both, ← members, ite_self]
  · -- All members are left to the second time.
    have left : ∀ name ∈ cell.settings.members, name ∉ names := by simpa using first
    have kept : cell.settings.members.filter (· ∉ names) = cell.settings.members :=
      List.filter_eq_self.2 fun name member => by simpa using left name member
    have same : cell.settings.members.any (· ∈ names ++ names')
        = cell.settings.members.any (· ∈ names') := by
      rw [Bool.eq_iff_iff, List.any_eq_true, List.any_eq_true]
      refine exists_congr fun name => and_congr_right fun member => ?_
      simp [left name member]
    rw [dropMembers_of_forall left, dropMembers, dropMembers, same, ← members, kept]

end SetCell

namespace ProjectCell

/-- Lets go of the configs with some names. -/
def letGo (names : List String) (cell : ProjectCell) : ProjectCell :=
  { cell with configs := cell.configs.filter (·.1 ∉ names) }

/-- A project lets go of nothing if it has no config under the names. -/
theorem letGo_of_forall {names : List String} {cell : ProjectCell}
    (absent : ∀ entry ∈ cell.configs, entry.1 ∉ names) : cell.letGo names = cell := by
  have kept : cell.configs.filter (·.1 ∉ names) = cell.configs :=
    List.filter_eq_self.2 fun entry held => by simpa using absent entry held
  rw [letGo, kept]

/-- It does not matter how often and in which order names are let go of. -/
theorem letGo_congr {names names' : List String} (same : ∀ name, name ∈ names ↔ name ∈ names')
    (cell : ProjectCell) : cell.letGo names = cell.letGo names' := by
  simp only [letGo, same]

/-- To let go of names and then of others is to let go of all of them. -/
theorem letGo_letGo (names names' : List String) (cell : ProjectCell) :
    (cell.letGo names).letGo names' = cell.letGo (names ++ names') := by
  rw [letGo, letGo, letGo, ← Keyed.filter_notMem_append]

end ProjectCell

namespace Workspace

variable {σ : Type} {ws ws' : Workspace σ} {p q : ProjectId}

/-! ## Projects that were made -/

/-- A project was made under the id. -/
def HasProject (ws : Workspace σ) (p : ProjectId) : Prop := p.index < ws.projects.size

instance (ws : Workspace σ) (p : ProjectId) : Decidable (ws.HasProject p) :=
  Nat.decLt _ _

/-- A project that does not exist is as if it were empty. -/
theorem project_of_not_hasProject (h : ¬ws.HasProject p) : ws.project p = {} := by
  have outside : ws.projects.size ≤ p.index := Nat.le_of_not_lt h
  rw [project, Array.getElem?_eq_none outside]
  rfl

/-- A project that holds something was made. -/
theorem hasProject_of_mem {entry : String × ConfigId}
    (held : entry ∈ (ws.project p).configs) : ws.HasProject p := by
  by_contra h
  rw [project_of_not_hasProject h] at held
  cases held

/-- A change of a project changes no other one. -/
theorem project_updateProject (inside : ws.HasProject p) (q : ProjectId)
    (f : ProjectCell → ProjectCell) :
    (ws.updateProject p f).project q = if q = p then f (ws.project p) else ws.project q := by
  obtain ⟨i⟩ := p
  obtain ⟨j⟩ := q
  have inside : i < ws.projects.size := inside
  by_cases same : j = i
  · subst same
    simp [project, updateProject, Array.getElem_modify, inside]
  · have other : i ≠ j := fun e => same e.symm
    simp [project, updateProject, Array.getElem?_modify, same, other]

/-- It neither makes projects nor loses any. -/
theorem hasProject_updateProject {f : ProjectCell → ProjectCell} :
    (ws.updateProject p f).HasProject q ↔ ws.HasProject q := by
  rw [HasProject, updateProject, Array.size_modify, HasProject]

/-! ## Configs that were made -/

/-- A config that was made is still there, under its name and in its project. -/
def KeepsFrames (ws ws' : Workspace σ) : Prop :=
  ∀ id, ws.HasConfig id → ws'.HasConfig id ∧ (ws'.config id).name = (ws.config id).name ∧
    (ws'.config id).project = (ws.config id).project

theorem KeepsFrames.trans {ws'' : Workspace σ} (h : KeepsFrames ws ws')
    (h' : KeepsFrames ws' ws'') : KeepsFrames ws ws'' := by
  intro id known
  obtain ⟨there, name, project⟩ := h id known
  obtain ⟨there', name', project'⟩ := h' id there
  exact ⟨there', name'.trans name, project'.trans project⟩

/-- Configs that are read stay what they are. -/
theorem Extends.keepsFrames (ext : ws.Extends ws') : KeepsFrames ws ws' := fun id known =>
  ⟨ext.hasConfig known, (ext.cells id known).name, (ext.cells id known).project⟩

/-- So do configs that forget what was read. -/
theorem Sheds.keepsFrames (sheds : Sheds ws ws') : KeepsFrames ws ws' := by
  intro id known
  obtain ⟨name, -, project⟩ := sheds.frame id known
  exact ⟨known.of_size_le sheds.size_le, name, project⟩

section Changes

variable [DocumentSource σ]

/-- So they do in every change. -/
theorem Change.keepsFrames (change : Change ws ws') : KeepsFrames ws ws' := by
  rcases change.read_or_sheds with ⟨other, there, -, rfl⟩ | sheds
  · exact (extends_afterReading there).keepsFrames
  · exact sheds.keepsFrames

/-- And in changes one after the other. -/
theorem Changes.keepsFrames (changes : Changes ws ws') : KeepsFrames ws ws' := by
  induction changes with
  | refl => exact fun _ known => ⟨known, rfl, rfl⟩
  | tail _ change ih => exact ih.trans change.keepsFrames

/-- A project that was made is still there. -/
theorem Change.hasProject (change : Change ws ws') (inside : ws.HasProject p) :
    ws'.HasProject p := by
  have of_size_le : ws.projects.size ≤ ws'.projects.size → ws'.HasProject p :=
    Nat.lt_of_lt_of_le inside
  refine of_size_le ?_
  cases change with
  | elsewhere | sets | note | depend | forget => exact Nat.le_refl _
  | read id known =>
    have same : (ws.afterReading id).projects = ws.projects := by
      rw [(extends_afterReading known).rest]
    exact Nat.le_of_eq (congrArg Array.size same).symm
  | insert own done =>
    obtain ⟨-, -, rfl⟩ := eq_of_insertConfig done
    exact Nat.le_of_eq Array.size_modify.symm
  | project => exact Nat.le_of_eq Array.size_modify.symm
  | useProject cell => exact (Array.size_push cell).symm ▸ Nat.le_succ _
  | switch p enabled =>
    have switched : (ws.switched p enabled).projects.size = ws.projects.size := Array.size_modify
    refine Nat.le_of_eq (Eq.symm ?_)
    refine enableImports_induction (motive := fun ws' => ws'.projects.size = ws.projects.size)
      rfl switched fun ws' id same => ?_
    rwa [projects_reloadConfig]

/-- Changes lose no project. -/
theorem Changes.hasProject (changes : Changes ws ws') (inside : ws.HasProject p) :
    ws'.HasProject p := by
  induction changes with
  | refl => exact inside
  | tail _ change ih => exact change.hasProject ih

end Changes

/-! ## Configs by name -/

/-- A project has a config of a name if it lists one. -/
theorem hasConfig_iff {name : String} :
    ws.hasConfig p name = true ↔ name ∈ (ws.project p).configs.map Prod.fst :=
  Keyed.lookup_isSome_iff_mem

/-- A config is found by a name that it is listed under. -/
theorem mem_of_configOf? {name : String} {c : ConfigId} (found : ws.configOf? p name = some c) :
    (name, c) ∈ (ws.project p).configs :=
  Keyed.mem_of_lookup found

/-- Projects hold configs of their own, under their own names and each name once. -/
structure Holds (ws : Workspace σ) : Prop where
  own : ∀ p, ∀ entry ∈ (ws.project p).configs, ws.HasConfig entry.2 ∧
    (ws.config entry.2).name = entry.1 ∧ (ws.config entry.2).project = p
  once : ∀ p, ∀ entry ∈ (ws.project p).configs, ∀ other ∈ (ws.project p).configs,
    other.1 = entry.1 → other = entry

/-- Switching imports leaves a project what it holds. -/
theorem configs_enableImports (ws : Workspace σ) (p : ProjectId) (enabled : Bool) (q : ProjectId) :
    ((ws.enableImports p enabled).project q).configs = (ws.project q).configs := by
  have switched : ((ws.switched p enabled).project q).configs = (ws.project q).configs := by
    rcases project_updateProject_cases ws p q _ with same | ⟨rfl, changed⟩
    · exact congrArg ProjectCell.configs same
    · exact (congrArg ProjectCell.configs changed :)
  refine enableImports_induction
    (motive := fun ws' => (ws'.project q).configs = (ws.project q).configs) rfl switched
    fun ws' id same => ?_
  rwa [project, projects_reloadConfig]

/-- A config is added under a name that was free, and its project holds nothing else that is new. -/
theorem held_insertConfig {name : String} {origin : ConfigOrigin} {id : ConfigId}
    (done : ws.insertConfig p name origin = .ok (id, ws')) :
    (∀ entry ∈ (ws.project p).configs, entry.1 ≠ name) ∧
      ∀ q, ∀ entry ∈ (ws'.project q).configs,
        entry ∈ (ws.project q).configs ∨ q = p ∧ entry = (name, id) := by
  obtain ⟨-, -, -, projects⟩ := insertConfig_eq_ok done
  refine ⟨fun entry listed same => ?_, fun q entry listed => ?_⟩
  · have there : ws.hasConfig p name = true :=
      hasConfig_iff.2 (List.mem_map.2 ⟨entry, listed, same⟩)
    rw [insertConfig, if_pos there] at done
    cases done
  · rcases projects q with same | ⟨rfl, more⟩
    · exact .inl (same ▸ listed)
    · rw [more] at listed
      rcases List.mem_append.1 listed with there | new
      · exact .inl there
      · exact .inr ⟨rfl, List.mem_singleton.1 new⟩

namespace Holds

/-- Where names are listed once, every config that is listed is found by its name. -/
theorem configOf? (h : ws.Holds) {name : String} {c : ConfigId} :
    ws.configOf? p name = some c ↔ (name, c) ∈ (ws.project p).configs := by
  refine ⟨mem_of_configOf?, fun listed => ?_⟩
  have there : ws.hasConfig p name = true :=
    hasConfig_iff.2 (List.mem_map.2 ⟨(name, c), listed, rfl⟩)
  obtain ⟨c', found⟩ := Option.isSome_iff_exists.1 there
  cases h.once p (name, c) listed (name, c') (mem_of_configOf? found) rfl
  exact found

/-- A project lists only configs of its own. -/
theorem project_of_mem_configsOf (h : ws.Holds) {c : ConfigId} (held : c ∈ ws.configsOf p) :
    (ws.config c).project = p := by
  obtain ⟨entry, listed, rfl⟩ := List.mem_map.1 held
  exact (h.own p entry listed).2.2

/-- Where projects hold what they held, and the configs are known as before. -/
theorem of_held (h : ws.Holds)
    (held : ∀ p, ∀ entry ∈ (ws'.project p).configs, entry ∈ (ws.project p).configs)
    (keeps : KeepsFrames ws ws') : ws'.Holds where
  own := by
    intro p entry listed
    obtain ⟨known, name, project⟩ := h.own p entry (held p entry listed)
    obtain ⟨known', name', project'⟩ := keeps entry.2 known
    exact ⟨known', name'.trans name, project'.trans project⟩
  once := fun p entry listed other listed' =>
    h.once p entry (held p entry listed) other (held p other listed')

/-- The name of a new config was not listed before, and the config belongs to the project. -/
theorem insertConfig (h : ws.Holds) {name : String} {origin : ConfigOrigin} {id : ConfigId}
    (done : ws.insertConfig p name origin = .ok (id, ws')) : ws'.Holds := by
  obtain ⟨last, size, cells, -⟩ := insertConfig_eq_ok done
  obtain ⟨free, old⟩ := held_insertConfig done
  have before : KeepsFrames ws ws' := (sheds_insertConfig done).keepsFrames
  constructor
  · intro q entry listed
    rcases old q entry listed with there | ⟨rfl, rfl⟩
    · obtain ⟨known, named, project⟩ := h.own q entry there
      obtain ⟨known', named', project'⟩ := before entry.2 known
      exact ⟨known', named'.trans named, project'.trans project⟩
    · have inside : ws'.HasConfig id := by
        unfold HasConfig
        omega
      rw [cells, if_pos last]
      exact ⟨inside, rfl, rfl⟩
  · intro q entry listed other listed' same
    rcases old q entry listed with there | ⟨rfl, rfl⟩
    · rcases old q other listed' with there' | ⟨rfl, rfl⟩
      · exact h.once q entry there other there' same
      · exact absurd same.symm (free entry there)
    · rcases old q other listed' with there' | ⟨-, rfl⟩
      · exact absurd same (free other there')
      · rfl

/-- No change ends it. -/
theorem change [DocumentSource σ] (h : ws.Holds) (step : Change ws ws') : ws'.Holds := by
  have keeps := step.keepsFrames
  cases step with
  | insert own done => exact h.insertConfig done
  | elsewhere | sets | note | depend | forget => exact h.of_held (fun _ _ listed => listed) keeps
  | read id known =>
    refine h.of_held (fun p _ listed => ?_) keeps
    exact (extends_afterReading known).project p ▸ listed
  | project p f held alike =>
    refine h.of_held (fun q entry listed => ?_) keeps
    rcases project_updateProject_cases ws p q f with same | ⟨rfl, changed⟩
    · exact same ▸ listed
    · exact held _ entry (changed ▸ listed)
  | useProject cell empty =>
    refine h.of_held (fun p entry listed => ?_) keeps
    have cells : (ws.useProject cell).2.project p
        = if p.index = ws.projects.size then cell else ws.project p :=
      project_push ws cell p
    rw [cells] at listed
    split at listed
    · rw [empty] at listed
      cases listed
    · exact listed
  | switch p enabled =>
    refine h.of_held (fun q entry listed => ?_) keeps
    rwa [configs_enableImports] at listed

/-- Nor do changes one after the other. -/
theorem changes [DocumentSource σ] (h : ws.Holds) (steps : Changes ws ws') : ws'.Holds := by
  induction steps with
  | refl => exact h
  | tail _ step ih => exact ih.change step

end Holds

/-- However a workspace has come about, projects hold configs under their own names. -/
theorem FreelyReachable.holds [DocumentSource σ] [FiniteSource σ] (h : FreelyReachable ws) :
    ws.Holds := by
  refine h.of_changes (fun source => ?_) (fun ws source before => ?_) fun step before => ?_
  · constructor
    · intro p entry listed
      cases listed
    · intro p entry listed
      cases listed
  · exact ⟨before.own, before.once⟩
  · exact before.change step

/-! ## Removing configs -/

/-- A set that loses a member drops its name, and other sets stay as they are. -/
theorem set_removeMember (ws : Workspace σ) (id other : SetId) (name : String) :
    (ws.removeMember id name).2.set other
      = if other = id then (ws.set id).dropMembers [name] else ws.set other := by
  unfold removeMember
  by_cases member : ws.hasMember id name = true
  · have known : ws.HasSet id := by
      by_contra outside
      have none : ws.set id = {} := by
        rw [set, Array.getElem?_eq_none (Nat.le_of_not_lt outside)]
        rfl
      rw [hasMember, none] at member
      cases member
    have there : (ws.set id).settings.members.any (· ∈ [name]) = true :=
      List.any_eq_true.2 ⟨name, List.contains_iff_mem.1 member, by simp⟩
    rw [if_pos member, SetCell.dropMembers, if_pos there]
    simp only [List.mem_singleton]
    exact set_updateSet ws id other _ known
  · have none : (ws.set id).dropMembers [name] = ws.set id := by
      refine SetCell.dropMembers_of_forall fun other listed same => member ?_
      exact List.contains_iff_mem.2 (List.mem_singleton.1 same ▸ listed)
    rw [if_neg member, none]
    by_cases same : other = id
    · rw [if_pos same, same]
    · rw [if_neg same]

/-- Drops a member of sets. -/
def removeMembers (ws : Workspace σ) (sets : List SetId) (name : String) : Workspace σ :=
  sets.foldl (fun ws set => (ws.removeMember set name).2) ws

/-- Only sets change. -/
theorem removeMembers_rest (ws : Workspace σ) (sets : List SetId) (name : String) :
    ws.removeMembers sets name = { ws with sets := (ws.removeMembers sets name).sets } := by
  induction sets generalizing ws with
  | nil => rfl
  | cons id rest ih =>
    have step : ws.removeMembers (id :: rest) name
        = (ws.removeMember id name).2.removeMembers rest name := rfl
    rw [step, ih]
    unfold removeMember
    split
    · rfl
    · rfl

/-- No set gets lost when members are removed. -/
theorem size_removeMembers (ws : Workspace σ) (sets : List SetId) (name : String) :
    (ws.removeMembers sets name).sets.size = ws.sets.size := by
  induction sets generalizing ws with
  | nil => rfl
  | cons id rest ih =>
    refine (ih (ws.removeMember id name).2).trans ?_
    unfold removeMember
    split
    · exact Array.size_modify
    · rfl

/-- Each of the sets drops the name once, however often it is listed. -/
theorem set_removeMembers (ws : Workspace σ) (sets : List SetId) (name : String) (id : SetId) :
    (ws.removeMembers sets name).set id
      = if id ∈ sets then (ws.set id).dropMembers [name] else ws.set id := by
  induction sets generalizing ws with
  | nil => rfl
  | cons first rest ih =>
    have step : ws.removeMembers (first :: rest) name
        = (ws.removeMember first name).2.removeMembers rest name := rfl
    rw [step, ih, set_removeMember]
    by_cases same : id = first
    · -- There is nothing to drop a second time.
      have once : (ws.set id).dropMembers ([name] ++ [name]) = (ws.set id).dropMembers [name] :=
        SetCell.dropMembers_congr (by simp) (ws.set id)
      rw [if_pos same, ← same, SetCell.dropMembers_dropMembers, if_pos List.mem_cons_self, once,
        ite_self]
    · rw [if_neg same]
      simp only [List.mem_cons, same, false_or]

/-- Configs with some names were let go by their project and by its sets, and nothing else has
changed. -/
structure Releases (ws ws' : Workspace σ) (p : ProjectId) (names : List String) : Prop where
  project : ∀ q, ws'.project q = if q = p then (ws.project p).letGo names else ws.project q
  sets : ∀ id, ws'.set id
    = if id ∈ ws.setsOf p then (ws.set id).dropMembers names else ws.set id
  size : ws'.projects.size = ws.projects.size
  setsSize : ws'.sets.size = ws.sets.size
  rest : ws' = { ws with sets := ws'.sets, projects := ws'.projects }

namespace Releases

variable {names names' : List String}

/-- Nothing is released where no names are. -/
theorem refl (ws : Workspace σ) (p : ProjectId) : Releases ws ws p [] where
  project := by
    intro q
    rw [ProjectCell.letGo_of_forall fun _ _ => List.not_mem_nil]
    by_cases same : q = p
    · rw [if_pos same, same]
    · rw [if_neg same]
  sets := by
    intro id
    rw [SetCell.dropMembers_nil, ite_self]
  size := rfl
  setsSize := rfl
  rest := rfl

/-- The project lists the sets that it listed. -/
theorem setsOf (h : Releases ws ws' p names) : ws'.setsOf p = ws.setsOf p := by
  rw [Workspace.setsOf, h.project, if_pos rfl, ProjectCell.letGo, Workspace.setsOf]

theorem configs (h : Releases ws ws' p names) : ws'.configs = ws.configs := by rw [h.rest]

/-- The projects are there that were there. -/
theorem hasProject (h : Releases ws ws' p names) (inside : ws.HasProject q) :
    ws'.HasProject q := by
  unfold HasProject
  rw [h.size]
  exact inside

/-- No config is read otherwise. -/
theorem foretells [DocumentSource σ] (h : Releases ws ws' p names) (wired : ws.Wired) :
    Foretells ws ws' := by
  have source : ws'.source = ws.source := by rw [h.rest]
  refine foretells_of_cells wired source (fun q => ?_) (Nat.le_of_eq (by rw [h.configs]))
    fun id _ => ⟨_, config_congr h.configs id⟩
  rw [h.project]
  split
  · rename_i same
    exact same ▸ ⟨rfl, rfl, rfl⟩
  · exact .refl _

/-- The project has the other configs. -/
theorem hasConfig (h : Releases ws ws' p names) {name : String} :
    ws'.hasConfig p name = true ↔ ws.hasConfig p name = true ∧ name ∉ names := by
  rw [hasConfig_iff, hasConfig_iff, h.project, if_pos rfl, ProjectCell.letGo]
  simp only [List.mem_map, List.mem_filter, decide_eq_true_eq]
  constructor
  · rintro ⟨entry, ⟨there, kept⟩, rfl⟩
    exact ⟨⟨entry, there, rfl⟩, kept⟩
  · rintro ⟨⟨entry, there, rfl⟩, kept⟩
    exact ⟨entry, ⟨there, kept⟩, rfl⟩

/-- The sets of the project have the other members. -/
theorem hasMember_iff (h : Releases ws ws' p names) {id : SetId} (within : id ∈ ws.setsOf p)
    {name : String} :
    ws'.hasMember id name = true ↔ ws.hasMember id name = true ∧ name ∉ names := by
  rw [Workspace.hasMember, h.sets, if_pos within, SetCell.dropMembers]
  simp [Workspace.hasMember]

/-- No set of the project has a member that was released. -/
theorem hasMember (h : Releases ws ws' p names) {id : SetId} (within : id ∈ ws.setsOf p)
    {name : String} (released : name ∈ names) : ws'.hasMember id name = false :=
  Bool.eq_false_iff.2 fun there => ((h.hasMember_iff within).1 there).2 released

/-- To release names and then others is to release all of them. -/
theorem trans {ws'' : Workspace σ} (h : Releases ws ws' p names)
    (h' : Releases ws' ws'' p names') : Releases ws ws'' p (names ++ names') where
  project := by
    intro q
    rw [h'.project, h.project, h.project, if_pos rfl, ProjectCell.letGo_letGo]
    by_cases same : q = p
    · rw [if_pos same, if_pos same]
    · rw [if_neg same, if_neg same, if_neg same]
  sets := by
    intro id
    rw [h'.sets, h.setsOf, h.sets]
    by_cases within : id ∈ ws.setsOf p
    · rw [if_pos within, if_pos within, if_pos within, SetCell.dropMembers_dropMembers]
    · rw [if_neg within, if_neg within, if_neg within]
  size := h'.size.trans h.size
  setsSize := h'.setsSize.trans h.setsSize
  rest := by rw [h'.rest, h.rest]

/-- It does not matter how often and in which order names are released. -/
theorem congr (h : Releases ws ws' p names) (same : ∀ name, name ∈ names ↔ name ∈ names') :
    Releases ws ws' p names' where
  project := by
    intro q
    rw [h.project, ProjectCell.letGo_congr same]
  sets := by
    intro id
    rw [h.sets, SetCell.dropMembers_congr same]
  size := h.size
  setsSize := h.setsSize
  rest := h.rest

end Releases

/-- To remove a config that there is, is to release it. -/
theorem releases_removeConfig {name : String} (there : ws.hasConfig p name = true) :
    Releases ws (ws.removeConfig p name).2 p [name] := by
  obtain ⟨entry, listed, -⟩ := List.mem_map.1 (hasConfig_iff.1 there)
  have projects := fun q => project_updateProject (hasProject_of_mem listed) q (.letGo [name])
  have sets : (ws.updateProject p (.letGo [name])).setsOf p = ws.setsOf p := by
    rw [setsOf, projects, if_pos rfl, ProjectCell.letGo, setsOf]
  have removed : (ws.removeConfig p name).2
      = (ws.updateProject p (.letGo [name])).removeMembers (ws.setsOf p) name := by
    have cell : (fun cell : ProjectCell =>
        { cell with configs := Keyed.erase Prod.fst name cell.configs }) = .letGo [name] := by
      funext cell
      simp only [ProjectCell.letGo, Keyed.erase, List.mem_singleton]
    rw [removeConfig, if_pos there, cell, ← sets]
    rfl
  have rest := removeMembers_rest (ws.updateProject p (.letGo [name])) (ws.setsOf p) name
  rw [removed]
  constructor
  · intro q
    rw [rest]
    exact projects q
  · intro id
    exact set_removeMembers _ _ _ _
  · rw [rest]
    exact Array.size_modify
  · exact size_removeMembers _ _ _
  · rw [rest]
    rfl

/-- To remove configs one after the other is to release those of them that there are. -/
theorem releases_removeConfigs (ws : Workspace σ) (p : ProjectId) (names : List String) :
    Releases ws (ws.removeConfigs p names) p (names.filter (ws.hasConfig p)) := by
  induction names generalizing ws with
  | nil => exact .refl ws p
  | cons name rest ih =>
    by_cases there : ws.hasConfig p name = true
    · have first := releases_removeConfig there
      refine (first.trans (ih (ws.removeConfig p name).2)).congr fun other => ?_
      -- A name that was released before need not be released again.
      rw [List.mem_append, List.mem_singleton, List.mem_filter, List.mem_filter, List.mem_cons,
        first.hasConfig, List.mem_singleton]
      by_cases same : other = name
      · simp [same, there]
      · simp [same]
    · have step : ws.removeConfigs p (name :: rest) = ws.removeConfigs p rest := by
        have first : (ws.removeConfig p name).2 = ws := by rw [removeConfig, if_neg there]
        exact congrArg (removeConfigs · p rest) first
      rw [step, List.filter_cons_of_neg there]
      exact ih ws

end Workspace

end BeanWiring
