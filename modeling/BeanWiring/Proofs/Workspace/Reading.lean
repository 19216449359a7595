/-
# Reading a config

What the reading of one config does to a workspace.  Reading only adds to what is known:
configs that have been read stay as they are, and the imports of a config become new
configs.

Main statements:

* `extends_afterReading` : what is known stays as it is;
* `isImport_of_firstContents` : what a config imports when it is read for the first time.
-/
import BeanWiring.Proofs.Config.Imports
import BeanWiring.Proofs.Workspace.Cells
import BeanWiring.Proofs.Workspace.Trees

namespace BeanWiring

/-! ## Numbering -/

namespace Workspace

/-- Numbering targets keeps their number. -/
theorem length_numberTargets (next : Nat) (targets : List (Option String)) :
    (numberTargets next targets).length = targets.length := by
  induction targets generalizing next with
  | nil => rfl
  | cons target rest ih =>
    cases target with
    | none => exact congrArg (· + 1) (ih next)
    | some _ => exact congrArg (· + 1) (ih (next + 1))

/-- The ids count through the names that are there. -/
theorem mem_numberTargets {next : Nat} {targets : List (Option String)} {t : ConfigId}
    (h : some t ∈ numberTargets next targets) :
    ∃ j n, t.index = next + j ∧ (targets.filterMap id)[j]? = some n := by
  induction targets generalizing next with
  | nil => cases h
  | cons target rest ih =>
    cases target with
    | none =>
      rcases List.mem_cons.1 h with h | h
      · cases h
      · exact ih h
    | some name =>
      rcases List.mem_cons.1 h with h | h
      · cases h
        exact ⟨0, name, rfl, rfl⟩
      · obtain ⟨j, n, index, found⟩ := ih h
        exact ⟨j + 1, n, by omega, found⟩

end Workspace

/-- With other targets, the imports lead there. -/
theorem Contents.map_target_withTargets {C D : Type} (c : Contents C) {targets : List (Option D)}
    (length : targets.length = c.imports.length) :
    (c.withTargets targets).imports.map Import.target = targets := by
  show ((c.imports.zipWith (fun i t => (⟨i.resource, i.location, t⟩ : Import D)) targets).map
    Import.target) = targets
  rw [List.map_zipWith]
  generalize c.imports = imports at length
  induction imports generalizing targets with
  | nil =>
    rw [List.length_eq_zero_iff.1 length]
    rfl
  | cons i rest ih =>
    cases targets with
    | nil => cases length
    | cons t targets =>
      rw [List.zipWith_cons_cons, ih (Nat.succ.inj length)]

/-! ## What reading leaves alone -/

/-- A cell that knows all that another does, about the same config. -/
structure ConfigCell.Extends (old new : ConfigCell) : Prop where
  name : new.name = old.name
  origin : new.origin = old.origin
  project : new.project = old.project
  chain : new.chain = old.chain
  contents : ∀ c, old.contents = some c → new.contents = some c
  dependents : old.dependents ⊆ new.dependents

theorem ConfigCell.Extends.refl (cell : ConfigCell) : cell.Extends cell :=
  ⟨rfl, rfl, rfl, rfl, fun _ => id, fun _ => id⟩

theorem ConfigCell.Extends.trans {a b c : ConfigCell} (h : a.Extends b) (h' : b.Extends c) :
    a.Extends c where
  name := h'.name.trans h.name
  origin := h'.origin.trans h.origin
  project := h'.project.trans h.project
  chain := h'.chain.trans h.chain
  contents := fun k hk => h'.contents k (h.contents k hk)
  dependents := fun _ hd => h'.dependents (h.dependents hd)

namespace Workspace

variable {σ : Type}

/-- A workspace that knows all that another does about configs, and is the same otherwise. -/
structure Extends (ws ws' : Workspace σ) : Prop where
  rest : ws' = { ws with configs := ws'.configs }
  size_le : ws.configs.size ≤ ws'.configs.size
  cells : ∀ id, ws.HasConfig id → (ws.config id).Extends (ws'.config id)

namespace Extends

variable {ws ws' ws'' : Workspace σ}

theorem refl (ws : Workspace σ) : ws.Extends ws :=
  ⟨rfl, Nat.le_refl _, fun _ _ => .refl _⟩

/-- An extension loses no config. -/
theorem hasConfig (h : ws.Extends ws') {id : ConfigId} (known : ws.HasConfig id) :
    ws'.HasConfig id :=
  known.of_size_le h.size_le

theorem trans (h : ws.Extends ws') (h' : ws'.Extends ws'') : ws.Extends ws'' where
  rest := by
    rw [h'.rest, h.rest]
  size_le := Nat.le_trans h.size_le h'.size_le
  cells := fun id known => (h.cells id known).trans (h'.cells id (h.hasConfig known))

/-- Reading configs leaves the documents alone. -/
theorem source (h : ws.Extends ws') : ws'.source = ws.source := by
  rw [h.rest]

/-- Reading configs leaves every set alone. -/
theorem set (h : ws.Extends ws') (id : SetId) : ws'.set id = ws.set id := by
  rw [h.rest]
  rfl

/-- Reading configs leaves every project alone. -/
theorem project (h : ws.Extends ws') (id : ProjectId) : ws'.project id = ws.project id := by
  rw [h.rest]
  rfl

/-- What is shown stays shown. -/
theorem shows (h : ws.Extends ws') {depth : Nat} {id : ConfigId} {t : ConfigTree}
    (shown : ws.Shows depth id t) : ws'.Shows depth id t := by
  refine Shows.of_agree (P := fun _ => True) ?_ (fun _ _ _ _ _ _ => trivial) trivial shown
  intro id c _ read
  have cell := h.cells id (hasConfig_of_contents read)
  exact ⟨cell.contents c read, cell.name⟩

end Extends

/-! ## Reading one config -/

section Step

variable [DocumentSource σ]

/-- The workspace after a config was read. -/
def afterReading (ws : Workspace σ) (id : ConfigId) : Workspace σ :=
  ((readConfig id).run ws).2

/-- What is read of a config for the first time. -/
def firstContents (ws : Workspace σ) (id : ConfigId) : Contents ConfigId :=
  let named := ws.currentContents (ws.config id)
  named.withTargets (numberTargets ws.configs.size (named.imports.map Import.target))

/-- The configs that are made when a config is read for the first time. -/
def firstImports (ws : Workspace σ) (id : ConfigId) : List ConfigCell :=
  (ws.currentContents (ws.config id)).importedConfigs.map (importedCell (ws.config id))

variable {ws : Workspace σ} {id : ConfigId}

/-- A config that was read before is not read again. -/
theorem afterReading_of_read {c : Contents ConfigId} (read : (ws.config id).contents = some c) :
    ws.afterReading id = ws := by
  rw [afterReading, readConfig_of_read read]

/-- The first reading makes the imported configs, and keeps what was read. -/
theorem run_readConfig_of_unread (unread : (ws.config id).contents = none) :
    (readConfig id).run ws = (ws.firstContents id,
      ({ ws with configs := ws.configs ++ ws.firstImports id } : Workspace σ).updateConfig id
        fun cell => { cell with contents := some (ws.firstContents id) }) := by
  simp only [StateT.run, readConfig, unread]
  rfl

/-- The cells after a config was read for the first time. -/
theorem config_afterReading (known : ws.HasConfig id)
    (unread : (ws.config id).contents = none) (other : ConfigId) :
    (ws.afterReading id).config other
      = if other = id then { ws.config id with contents := some (ws.firstContents id) }
        else if other.index < ws.configs.size then ws.config other
        else ((ws.firstImports id)[other.index - ws.configs.size]?).getD {} := by
  have known' : id.index < (ws.configs ++ ws.firstImports id).size := by
    rw [size_append]
    exact Nat.lt_of_lt_of_le known (Nat.le_add_right _ _)
  have inside : id.index < ws.configs.size := known
  rw [afterReading, run_readConfig_of_unread unread]
  dsimp only
  rw [config_updateConfig _ id other _ known', config_append, config_append]
  by_cases same : other = id
  · rw [if_pos same, if_pos same, if_pos inside]
  · rw [if_neg same, if_neg same]

/-- The first reading makes one config for each import that leads to something. -/
theorem size_afterReading (unread : (ws.config id).contents = none) :
    (ws.afterReading id).configs.size = ws.configs.size + (ws.firstImports id).length := by
  rw [afterReading, run_readConfig_of_unread unread, size_updateConfig]
  exact size_append ws _

/-- Reading leaves alone what is known. -/
theorem extends_afterReading (known : ws.HasConfig id) : ws.Extends (ws.afterReading id) := by
  cases unread : (ws.config id).contents with
  | some c =>
    rw [afterReading_of_read unread]
    exact .refl ws
  | none =>
    refine ⟨?_, ?_, ?_⟩
    · rw [afterReading, run_readConfig_of_unread unread]
      rfl
    · rw [size_afterReading unread]
      exact Nat.le_add_right _ _
    · intro other known'
      rw [config_afterReading known unread]
      by_cases same : other = id
      · rw [if_pos same, same]
        refine ⟨rfl, rfl, rfl, rfl, ?_, fun _ => (·)⟩
        intro c read
        rw [unread] at read
        cases read
      · rw [if_neg same, if_pos (show other.index < ws.configs.size from known')]
        exact .refl _

/-- Once a config was read, what was read is kept. -/
theorem contents_afterReading (known : ws.HasConfig id) :
    ((ws.afterReading id).config id).contents = some ((readConfig id).run ws).1 := by
  cases unread : (ws.config id).contents with
  | some c => rw [afterReading_of_read unread, readConfig_of_read unread, unread]
  | none =>
    rw [config_afterReading known unread, if_pos rfl, run_readConfig_of_unread unread]

/-! ### New configs -/

/-- A config that was made when `cell` was read: its name exists, and nothing above it has the
name. -/
structure IsImport (ws : Workspace σ) (cell new : ConfigCell) : Prop where
  unread : new.contents = none
  origin : new.origin.isImported = true
  project : new.project = cell.project
  chain : new.chain = cell.chain ++ [cell.name]
  fresh : new.name ∉ cell.chain ++ [cell.name]
  isThere : DocumentSource.has ws.source new.name = true

/-- What the imports of a config are read to lead to. -/
theorem isImport_importedCell {cell : ConfigCell} {name : String}
    (listed : name ∈ (ws.currentContents cell).importedConfigs) :
    ws.IsImport cell (importedCell cell name) := by
  have admits := Contents.target_of_readContents _ _ name listed
  refine ⟨rfl, rfl, rfl, rfl, ?_, admits.isThere⟩
  intro above
  rcases List.mem_append.1 above with above | above
  · exact admits.notAbove above
  · exact admits.notItself (List.mem_singleton.1 above)

/-- The configs made by a reading stand for imports of the config that is read. -/
theorem isImport_of_mem_firstImports {new : ConfigCell} (h : new ∈ ws.firstImports id) :
    ws.IsImport (ws.config id) new := by
  obtain ⟨name, listed, rfl⟩ := List.mem_map.1 h
  exact isImport_importedCell listed

/-- Its name is not above it. -/
theorem IsImport.once {cell new : ConfigCell} (h : ws.IsImport cell new)
    (once : (cell.chain ++ [cell.name]).Nodup) : (new.chain ++ [new.name]).Nodup := by
  rw [h.chain]
  refine List.nodup_append.2 ⟨once, by simp, ?_⟩
  rintro a ha b hb rfl
  exact h.fresh (List.mem_singleton.1 hb ▸ ha)

/-- What a config imports when it is read for the first time is new. -/
theorem isImport_of_firstContents (known : ws.HasConfig id)
    (unread : (ws.config id).contents = none) {t : ConfigId}
    (imported : t ∈ (ws.firstContents id).importedConfigs) :
    ws.configs.size ≤ t.index ∧ (ws.afterReading id).HasConfig t ∧
      ws.IsImport (ws.config id) ((ws.afterReading id).config t) := by
  have listed : some t ∈ numberTargets ws.configs.size
      ((ws.currentContents (ws.config id)).imports.map Import.target) := by
    rw [Contents.mem_importedConfigs, firstContents, Contents.map_target_withTargets] at imported
    · exact imported
    · rw [length_numberTargets, List.length_map]
  obtain ⟨j, n, index, found⟩ := mem_numberTargets listed
  have named : (ws.currentContents (ws.config id)).importedConfigs[j]? = some n := by
    rw [List.filterMap_map] at found
    exact found
  have made : (ws.firstImports id)[j]? = some (importedCell (ws.config id) n) := by
    rw [firstImports, List.getElem?_map, named]
    rfl
  have inside : j < (ws.firstImports id).length := (List.getElem?_eq_some_iff.1 made).1
  refine ⟨by omega, ?_, ?_⟩
  · unfold HasConfig
    rw [size_afterReading unread]
    omega
  · have other : t ≠ id := by
      rintro rfl
      unfold HasConfig at known
      omega
    have new : (ws.afterReading id).config t = importedCell (ws.config id) n := by
      rw [config_afterReading known unread, if_neg other, if_neg (by omega),
        show t.index - ws.configs.size = j from by omega, made]
      rfl
    rw [new]
    exact isImport_of_mem_firstImports (List.mem_of_getElem? made)

end Step

end Workspace

end BeanWiring
