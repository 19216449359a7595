/-
# Telling what has changed

A config has changed if the document of a config in its tree has another stamp than the one that
was read.  Stamps tell everything about the documents that were read, but nothing about the others:
where an import led to no document there may be one by now, and where it led to one that has not
been read yet there may be none.

Main statements:

* `hasChanged_eq_false_iff` : all of the tree is compared;
* `tree_renewed_eq_iff` : an unchanged config is as a new one would be, exactly if its imports lead
  to what they would lead to now;
* `upToImports` : and then it answers as the new one would.
-/
import BeanWiring.Proofs.Config.Rereading
import BeanWiring.Proofs.Workspace.Answers
import BeanWiring.Proofs.Workspace.Records

namespace BeanWiring

/-- A config of which nothing has been read. -/
def ConfigCell.forgotten (cell : ConfigCell) : ConfigCell := { cell with contents := none }

namespace Workspace

section Source

variable {σ : Type} [DocumentSource σ] {ws ws' : Workspace σ}

/-! ## Comparing stamps -/

/-- What was read of a config has the stamp that its document has now. -/
def IsCurrent (ws : Workspace σ) (id : ConfigId) (c : Contents ConfigId) : Prop :=
  DocumentSource.stamp? ws.source (ws.config id).name = c.stamp

theorem hasChangedWithin_eq_false_iff (wired : ws.Wired) {depth : Nat} {id : ConfigId}
    (enough : ws.configs.size - id.index ≤ depth) :
    ws.hasChangedWithin depth id = false ↔ ws.Throughout ws.IsCurrent id := by
  induction depth generalizing id with
  | zero =>
    have unread : (ws.config id).contents = none := by
      rw [config_of_not_hasConfig]
      unfold HasConfig
      omega
    exact iff_of_true rfl (throughout_of_unread unread)
  | succ depth ih =>
    cases read : (ws.config id).contents with
    | none =>
      rw [hasChangedWithin, read]
      exact iff_of_true rfl (throughout_of_unread read)
    | some c =>
      have below : ∀ t ∈ c.importedConfigs, ws.configs.size - t.index ≤ depth := by
        intro t imported
        have larger := (wired.imports id c read t imported).1
        omega
      rw [hasChangedWithin, read, throughout_of_read read]
      dsimp only
      rw [Bool.or_eq_false_iff, List.any_eq_false]
      refine and_congr (by simp [IsCurrent]) (forall₂_congr fun t imported => ?_)
      rw [Bool.not_eq_true, ih (below t imported)]

/-- A config is unchanged if everything that was read of its tree is current. -/
theorem hasChanged_eq_false_iff (wired : ws.Wired) {id : ConfigId} :
    ws.hasChanged id = false ↔ ws.Throughout ws.IsCurrent id := by
  refine hasChangedWithin_eq_false_iff wired ?_
  unfold depthBound
  omega

/-! ## New configs -/

/-- A new config of the same name in the same project. -/
def renewed (ws : Workspace σ) (id : ConfigId) : ConfigId × Workspace σ :=
  ws.newConfig { name := (ws.config id).name, project := (ws.config id).project }

/-- Every import leads to what it would lead to now, as far as configs have been read. -/
def ImportsStand (ws : Workspace σ) (id : ConfigId) : Prop :=
  ws.Throughout (fun j c => ∀ i ∈ c.imports, i.target.map (fun t => (ws.config t).name)
    = (ws.surroundings (ws.config j)).target? i.resource) id

/-- A config answers as a new one of its name would, but for what its imports lead to: the trees of
both are the same exactly if the imports stand, and then all answers are. -/
structure UpToImports (ws : Workspace σ) (id : ConfigId) : Prop where
  tree : (ws.renewed id).2.tree (ws.renewed id).1 = ws.tree id ↔ ws.ImportsStand id
  answers : ws.ImportsStand id → AnswersAlike ws id (ws.renewed id).2 (ws.renewed id).1

/-- A document that is as it was says the same, exactly if its imports lead to what they led to. -/
theorem currentContents_again_iff {old : σ} {cell : ConfigCell}
    (same : DocumentSource.read ws.source cell.name = DocumentSource.read old cell.name) :
    ws.currentContents cell = ({ ws with source := old } : Workspace σ).currentContents cell ↔
      ∀ i ∈ (({ ws with source := old } : Workspace σ).currentContents cell).imports,
        i.target = (ws.surroundings cell).target? i.resource :=
  Contents.readContents_eq_iff
    (s := ({ ws with source := old } : Workspace σ).surroundings cell) same

/-- The same is foretold of configs that know the same and have not been read. -/
theorem foretell_unread_alike (depth : Nat) {cell cell' : ConfigCell}
    (unread : cell.contents = none) (unread' : cell'.contents = none)
    (name : cell'.name = cell.name) (chain : cell'.chain = cell.chain)
    (project : cell'.project = cell.project) :
    ws.foretell depth cell' = ws.foretell depth cell := by
  cases depth with
  | zero => rw [foretell, foretell, name]
  | succ depth =>
    have said : ws.currentContents cell' = ws.currentContents cell :=
      currentContents_alike rfl name chain project ⟨rfl, rfl, rfl⟩
    have imported : importedCell cell' = importedCell cell := by
      funext
      simp only [importedCell, name, chain, project]
    rw [ws.foretell_of_unread depth unread', ws.foretell_of_unread depth unread, name, said,
      imported]

/-- Forgetting a config that has been read changes nothing that is foretold of it, exactly if its
document says what it said, and the same holds of the configs that it imports. -/
theorem foretell_forgotten_iff (linked : ws.Linked) {id : ConfigId} {c : Contents ConfigId}
    (read : (ws.config id).contents = some c) (depth : Nat) :
    ws.foretell (depth + 1) (ws.config id).forgotten = ws.foretell (depth + 1) (ws.config id) ↔
      ws.currentContents (ws.config id) = c.mapTargets (fun t => (ws.config t).name) ∧
        ∀ t ∈ c.importedConfigs,
          ws.foretell depth (ws.config t).forgotten = ws.foretell depth (ws.config t) := by
  -- What is foretold of an import before and after.
  have imported : ∀ t ∈ c.importedConfigs,
      ws.foretell depth (importedCell (ws.config id) (ws.config t).name)
        = ws.foretell depth (ws.config t).forgotten := by
    intro t listed
    obtain ⟨-, chain, project⟩ := linked id c read t listed
    exact foretell_unread_alike depth rfl rfl rfl chain.symm project.symm
  have followed : (c.mapTargets fun t => (ws.config t).name).mapTargets
        (fun name => ws.foretell depth (importedCell (ws.config id) name))
      = c.mapTargets fun t => ws.foretell depth (ws.config t).forgotten := by
    rw [Contents.mapTargets_mapTargets]
    exact c.mapTargets_congr imported
  have before : ws.foretell (depth + 1) (ws.config id).forgotten
      = ⟨(ws.config id).name, (ws.currentContents (ws.config id)).mapTargets
          fun name => ws.foretell depth (importedCell (ws.config id) name)⟩ :=
    ws.foretell_of_unread depth rfl
  rw [before, ws.foretell_of_read depth read]
  constructor
  · intro same
    have contents := congrArg ConfigTree.contents same
    dsimp only at contents
    have said : ws.currentContents (ws.config id) = c.mapTargets fun t => (ws.config t).name := by
      have names := congrArg (Contents.mapTargets ConfigTree.name) contents
      rw [Contents.mapTargets_mapTargets, Contents.mapTargets_mapTargets] at names
      simp only [name_foretell] at names
      exact (Contents.mapTargets_id _).symm.trans names
    rw [said, followed] at contents
    exact ⟨said, c.eq_of_mapTargets contents⟩
  · rintro ⟨said, below⟩
    rw [said, followed, c.mapTargets_congr below]

omit [DocumentSource σ] in
theorem Sound.renewed (sound : ws.Sound) (id : ConfigId) : (ws.renewed id).2.Sound :=
  (sound.newConfig { name := (ws.config id).name, project := (ws.config id).project } rfl rfl).2

omit [DocumentSource σ] in
theorem hasConfig_renewed (ws : Workspace σ) (id : ConfigId) :
    (ws.renewed id).2.HasConfig (ws.renewed id).1 := by
  show ws.configs.size < (ws.configs.push _).size
  rw [Array.size_push]
  exact Nat.lt_succ_self _

/-- The tree of a new config is what is foretold of a config that was forgotten. -/
theorem tree_renewed [FiniteSource σ] (sound : ws.Sound) {id : ConfigId}
    (root : (ws.config id).chain = []) {depth : Nat}
    (enough : (ws.renewed id).2.fullDepth ≤ depth) :
    (ws.renewed id).2.tree (ws.renewed id).1 = ws.foretell depth (ws.config id).forgotten := by
  have cell : (ws.renewed id).2.config (ws.renewed id).1
      = { name := (ws.config id).name, project := (ws.config id).project } := by
    rw [renewed, config_newConfig]
    exact if_pos rfl
  have elsewhere : (ws.renewed id).2.foretell depth (ws.config id).forgotten
      = ws.foretell depth (ws.config id).forgotten := by
    refine foretell_unread_congr ?_ depth (readsAlike_of_projects ?_ _) rfl <;> rfl
  rw [tree_eq_foretell (sound.renewed id).toWired (hasConfig_renewed ws id) enough, cell,
    ← elsewhere]
  exact foretell_unread_alike depth rfl rfl rfl root.symm rfl

end Source

section Stores

variable {ws ws' : Workspace DocumentStore}

/-! ## Unchanged configs -/

/-- A document that has the stamp of what was read says what it said, exactly if its imports lead
to what they led to. -/
theorem IsRecord.currentContents_eq_iff {id : ConfigId} {c : Contents ConfigId}
    (record : ws.IsRecord id c) (current : ws.IsCurrent id c) :
    ws.currentContents (ws.config id) = c.mapTargets (fun t => (ws.config t).name) ↔
      ∀ i ∈ c.imports, i.target.map (fun t => (ws.config t).name)
        = (ws.surroundings (ws.config id)).target? i.resource := by
  obtain ⟨old, stamped, follows, said⟩ := record
  have stamp : DocumentSource.stamp? ws.source (ws.config id).name
      = (DocumentSource.read old (ws.config id).name).toOption.map Document.stamp :=
    current.trans ((congrArg Contents.stamp said).trans Contents.stamp_readContents)
  have same : DocumentSource.read ws.source (ws.config id).name
      = DocumentSource.read old (ws.config id).name :=
    DocumentStore.read_of_stamp? follows stamped stamp
  have again := currentContents_again_iff same
  rwa [← said, Contents.imports_mapTargets, List.forall_mem_map] at again

/-- An unchanged tree is read again as it was read, if its imports stand. -/
theorem foretell_forgotten (linked : ws.Linked) {id : ConfigId}
    (records : ws.Throughout ws.IsRecord id) (current : ws.Throughout ws.IsCurrent id)
    (stand : ws.ImportsStand id) (depth : Nat) :
    ws.foretell depth (ws.config id).forgotten = ws.foretell depth (ws.config id) := by
  induction depth generalizing id with
  | zero => rfl
  | succ depth ih =>
    cases read : (ws.config id).contents with
    | none =>
      have same : (ws.config id).forgotten = ws.config id := by
        rw [ConfigCell.forgotten, ← read]
      rw [same]
    | some c =>
      unfold ImportsStand at stand
      rw [throughout_of_read read] at records current stand
      refine (foretell_forgotten_iff linked read depth).2 ⟨?_, fun t imported => ?_⟩
      · exact (records.1.currentContents_eq_iff current.1).2 stand.1
      · exact ih (records.2 t imported) (current.2 t imported) (stand.2 t imported)

/-- The imports of an unchanged tree stand, if it is read again as it was read. -/
theorem importsStand_of_foretell (linked : ws.Linked) {id : ConfigId}
    (records : ws.Throughout ws.IsRecord id) (current : ws.Throughout ws.IsCurrent id) {low : Nat}
    (same : ∀ depth, low ≤ depth →
      ws.foretell depth (ws.config id).forgotten = ws.foretell depth (ws.config id)) :
    ws.ImportsStand id := by
  -- The trees of what is imported are read again as they were, too.
  have below : ∀ j, ws.Includes id j → ∀ depth, low ≤ depth →
      ws.foretell depth (ws.config j).forgotten = ws.foretell depth (ws.config j) := by
    intro j includes
    induction includes with
    | refl => exact same
    | tail _ step ih =>
      obtain ⟨c, read, imported⟩ := step
      intro depth deep
      have above := ih (depth + 1) (Nat.le_succ_of_le deep)
      exact ((foretell_forgotten_iff linked read depth).1 above).2 _ imported
  intro j includes c read
  have again := below j includes (low + 1) (Nat.le_succ low)
  have said := ((foretell_forgotten_iff linked read low).1 again).1
  exact ((records j includes c read).currentContents_eq_iff (current j includes c read)).1 said

/-- The tree of an unchanged config is that of a new config, exactly if its imports stand. -/
theorem tree_renewed_eq_iff (edited : Edited ws) {p : ProjectId} {entry : String × ConfigId}
    (held : entry ∈ (ws.project p).configs) (unchanged : ws.hasChanged entry.2 = false) :
    (ws.renewed entry.2).2.tree (ws.renewed entry.2).1 = ws.tree entry.2 ↔
      ws.ImportsStand entry.2 := by
  have recorded := edited.recorded
  have sound := edited.reachable.sound
  obtain ⟨known, -, root⟩ := recorded.held p entry held
  have records := recorded.records p entry held
  have current := (hasChanged_eq_false_iff sound.toWired).1 unchanged
  have room : ws.fullDepth ≤ (ws.renewed entry.2).2.fullDepth := by
    show ws.configs.size + _ ≤ (ws.configs.push _).size + _
    rw [Array.size_push]
    exact Nat.add_le_add_right (Nat.le_succ _) _
  constructor
  · intro same
    have again : ∀ depth, (ws.renewed entry.2).2.fullDepth ≤ depth →
        ws.foretell depth (ws.config entry.2).forgotten
          = ws.foretell depth (ws.config entry.2) := by
      intro depth deep
      rw [← tree_renewed sound root deep, same,
        tree_eq_foretell sound.toWired known (Nat.le_trans room deep)]
    exact importsStand_of_foretell recorded.linked records current again
  · intro stand
    rw [tree_renewed sound root (Nat.le_refl _), tree_eq_foretell sound.toWired known room]
    exact foretell_forgotten recorded.linked records current stand _

/-- An unchanged config answers as a new one would, but for what its imports lead to. -/
theorem upToImports (edited : Edited ws) {p : ProjectId} {entry : String × ConfigId}
    (held : entry ∈ (ws.project p).configs) (unchanged : ws.hasChanged entry.2 = false) :
    ws.UpToImports entry.2 := by
  have sound := edited.reachable.sound
  obtain ⟨known, -⟩ := sound.held p entry held
  have tree := tree_renewed_eq_iff edited held unchanged
  refine ⟨tree, fun stand => ?_⟩
  exact answersAlike_of_tree sound.toWired known (sound.renewed entry.2).toWired
    (hasConfig_renewed ws entry.2) (tree.2 stand)

end Stores

end Workspace

end BeanWiring
