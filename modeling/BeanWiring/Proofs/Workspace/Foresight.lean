/-
# Trees before they are read

The tree of a config as it would be read now, told without reading it: what has been read stays
as it was read, and the rest is what the documents say.  It is told from cells and not from ids,
so it does not matter which ids the configs of imports are going to get, and in which order
configs are read.

Main statements:

* `foretells_of_reads` : reading changes none of these trees;
* `readWithin_eq_foretell` : they are the trees that are read;
* `tree_of_read` : the tree of a config that has been read is put together from the trees of what
  it imports.
-/
import BeanWiring.Proofs.Workspace.ReadingTrees

namespace BeanWiring

/-! ## What imports lead to -/

/-- Follows an import, if it leads to something. -/
def Import.mapTarget {C D : Type} (f : C → D) (i : Import C) : Import D :=
  ⟨i.resource, i.location, i.target.map f⟩

namespace Contents

variable {C D E : Type}

/-- Follows every import that leads to something. -/
def mapTargets (f : C → D) (c : Contents C) : Contents D :=
  c.withTargets (c.imports.map fun i => i.target.map f)

/-- Where targets are set twice, the second ones count. -/
theorem withTargets_withTargets (c : Contents C) {targets : List (Option D)}
    (length : targets.length = c.imports.length) (others : List (Option E)) :
    (c.withTargets targets).withTargets others = c.withTargets others := by
  have imports : ((c.imports.zipWith
        (fun i t => (⟨i.resource, i.location, t⟩ : Import D)) targets).zipWith
        (fun i t => (⟨i.resource, i.location, t⟩ : Import E)) others)
      = c.imports.zipWith (fun i t => ⟨i.resource, i.location, t⟩) others := by
    generalize c.imports = imports at length
    induction imports generalizing targets others with
    | nil =>
      rw [List.length_eq_zero_iff.1 length]
      rfl
    | cons i rest ih =>
      obtain _ | ⟨t, targets⟩ := targets
      · cases length
      · obtain _ | ⟨other, others⟩ := others
        · rfl
        · rw [List.zipWith_cons_cons, List.zipWith_cons_cons, ih others (Nat.succ.inj length),
            List.zipWith_cons_cons]
  exact congrArg (fun imports => ({ c with imports } : Contents E)) imports

/-- Imports are followed from where they were redirected to. -/
theorem mapTargets_withTargets (c : Contents C) {targets : List (Option D)}
    (length : targets.length = c.imports.length) (f : D → E) :
    (c.withTargets targets).mapTargets f = c.withTargets (targets.map (Option.map f)) := by
  have followed : (c.withTargets targets).imports.map (fun i => i.target.map f)
      = targets.map (Option.map f) := by
    show (c.withTargets targets).imports.map (Option.map f ∘ Import.target) = _
    rw [← List.map_map, c.map_target_withTargets length]
  rw [mapTargets, followed, c.withTargets_withTargets length]

/-- Only what the imports lead to is followed. -/
theorem mapTargets_congr (c : Contents C) {f g : C → D}
    (same : ∀ t ∈ c.importedConfigs, f t = g t) : c.mapTargets f = c.mapTargets g := by
  have imports :
      (c.imports.map fun i => i.target.map f) = c.imports.map fun i => i.target.map g := by
    refine List.map_congr_left fun i listed => ?_
    cases target : i.target with
    | none => rfl
    | some t =>
      have imported : t ∈ c.importedConfigs := by
        rw [mem_importedConfigs, List.mem_map]
        exact ⟨i, listed, target⟩
      exact congrArg some (same t imported)
  rw [mapTargets, imports, mapTargets]

/-- Imports are followed one way and then another. -/
theorem mapTargets_mapTargets (c : Contents C) (f : C → D) (g : D → E) :
    (c.mapTargets f).mapTargets g = c.mapTargets fun t => g (f t) := by
  have first : c.mapTargets f = c.withTargets (c.imports.map fun i => i.target.map f) := rfl
  rw [first, c.mapTargets_withTargets (List.length_map _), List.map_map, mapTargets]
  simp only [Function.comp_def, Option.map_map]

/-- Imports that are not followed stay as they are. -/
theorem mapTargets_id (c : Contents C) : (c.mapTargets fun t => t) = c := by
  have imports : (c.mapTargets fun t => t).imports = c.imports := by
    show c.imports.zipWith _ (c.imports.map fun i => i.target.map fun t => t) = _
    rw [List.zipWith_map_right, List.zipWith_self]
    simp
  exact congrArg (fun imports => ({ c with imports } : Contents C)) imports

/-- Following imports changes their targets, one by one. -/
theorem imports_mapTargets (f : C → D) (c : Contents C) :
    (c.mapTargets f).imports = c.imports.map (Import.mapTarget f) := by
  show c.imports.zipWith _ (c.imports.map fun i => i.target.map f) = _
  rw [List.zipWith_map_right, List.zipWith_self]
  rfl

/-- What imports lead to tells how they were followed. -/
theorem eq_of_mapTargets (c : Contents C) {f g : C → D} (same : c.mapTargets f = c.mapTargets g) :
    ∀ t ∈ c.importedConfigs, f t = g t := by
  intro t imported
  obtain ⟨i, listed, target⟩ := List.mem_filterMap.1 imported
  have imports := congrArg Contents.imports same
  rw [imports_mapTargets, imports_mapTargets] at imports
  have followed := congrArg Import.target (List.map_inj_left.1 imports i listed)
  rw [Import.mapTarget, Import.mapTarget, target] at followed
  exact Option.some.inj followed

/-- The imported configs are the targets there are, in the order of the imports. -/
theorem importedConfigs_eq (c : Contents C) :
    c.importedConfigs = (c.imports.map Import.target).filterMap id := by
  rw [List.filterMap_map]
  rfl

/-- With other targets, the imported configs are these. -/
theorem importedConfigs_withTargets (c : Contents C) {targets : List (Option D)}
    (length : targets.length = c.imports.length) :
    (c.withTargets targets).importedConfigs = targets.filterMap id := by
  rw [importedConfigs_eq, c.map_target_withTargets length]

/-- Following imports follows the imported configs. -/
theorem importedConfigs_mapTargets (f : C → D) (c : Contents C) :
    (c.mapTargets f).importedConfigs = c.importedConfigs.map f := by
  rw [mapTargets, c.importedConfigs_withTargets (List.length_map _), List.filterMap_map,
    importedConfigs, List.map_filterMap]
  rfl

end Contents

/-- Two states of a project in which its configs are read alike. -/
structure ProjectCell.ReadsAlike (cell cell' : ProjectCell) : Prop where
  reader : cell'.reader = cell.reader
  namespaces : cell'.namespaces = cell.namespaces
  settings : cell'.settings = cell.settings

namespace ProjectCell.ReadsAlike

variable {cell cell' cell'' : ProjectCell}

theorem refl (cell : ProjectCell) : cell.ReadsAlike cell := ⟨rfl, rfl, rfl⟩

theorem trans (h : cell.ReadsAlike cell') (h' : cell'.ReadsAlike cell'') :
    cell.ReadsAlike cell'' :=
  ⟨h'.reader.trans h.reader, h'.namespaces.trans h.namespaces, h'.settings.trans h.settings⟩

end ProjectCell.ReadsAlike

namespace Workspace

/-- Numbered configs can be told from their names, if each name is that of the config with the
number. -/
theorem map_numberTargets {D : Type} {next : Nat} {targets : List (Option String)}
    {f : ConfigId → D} {g : String → D}
    (same : ∀ j n, (targets.filterMap id)[j]? = some n → f ⟨next + j⟩ = g n) :
    (numberTargets next targets).map (Option.map f) = targets.map (Option.map g) := by
  induction targets generalizing next with
  | nil => rfl
  | cons target rest ih =>
    cases target with
    | none => exact congrArg (none :: ·) (ih same)
    | some name =>
      have later : ∀ j n, (rest.filterMap id)[j]? = some n → f ⟨next + 1 + j⟩ = g n := by
        intro j n found
        rw [Nat.add_right_comm]
        exact same (j + 1) n found
      have others := ih later
      rw [numberTargets, List.map_cons, List.map_cons, others]
      exact congrArg (fun t => some t :: rest.map (Option.map g)) (same 0 name rfl)

variable {σ : Type} [DocumentSource σ]

/-! ## Foretelling -/

/-- The tree of a config as it would be read now, down to a depth. -/
def foretell (ws : Workspace σ) : (depth : Nat) → ConfigCell → ConfigTree
  | 0, cell => ⟨cell.name, {}⟩
  | depth + 1, cell =>
    match cell.contents with
    | some c => ⟨cell.name, c.mapTargets fun id => ws.foretell depth (ws.config id)⟩
    | none => ⟨cell.name,
        (ws.currentContents cell).mapTargets fun name => ws.foretell depth (importedCell cell name)⟩

/-- Of a config that was read, the tree follows what it was read as. -/
theorem foretell_of_read (ws : Workspace σ) (depth : Nat) {cell : ConfigCell}
    {c : Contents ConfigId} (read : cell.contents = some c) :
    ws.foretell (depth + 1) cell
      = ⟨cell.name, c.mapTargets fun id => ws.foretell depth (ws.config id)⟩ := by
  rw [foretell, read]

/-- Of a config that was not read, the tree follows what its document says now. -/
theorem foretell_of_unread (ws : Workspace σ) (depth : Nat) {cell : ConfigCell}
    (unread : cell.contents = none) :
    ws.foretell (depth + 1) cell = ⟨cell.name,
      (ws.currentContents cell).mapTargets fun name =>
        ws.foretell depth (importedCell cell name)⟩ := by
  rw [foretell, unread]

/-- A foretold tree has the name of its config. -/
theorem name_foretell (ws : Workspace σ) (depth : Nat) (cell : ConfigCell) :
    (ws.foretell depth cell).name = cell.name := by
  cases depth with
  | zero => rfl
  | succ depth =>
    unfold foretell
    split
    · rfl
    · rfl

variable {ws ws' ws'' : Workspace σ}

/-- What a document says depends on what the config knows, and on how its project reads. -/
theorem currentContents_alike (source : ws'.source = ws.source) {cell cell' : ConfigCell}
    (name : cell'.name = cell.name) (chain : cell'.chain = cell.chain)
    (project : cell'.project = cell.project)
    (alike : (ws.project cell.project).ReadsAlike (ws'.project cell.project)) :
    ws'.currentContents cell' = ws.currentContents cell := by
  simp only [currentContents, surroundings, source, name, chain, project, alike.reader,
    alike.namespaces, alike.settings]

omit [DocumentSource σ] in
/-- Where no project has changed, all read alike. -/
theorem readsAlike_of_projects (same : ws'.projects = ws.projects) (p : ProjectId) :
    (ws.project p).ReadsAlike (ws'.project p) := by
  rw [project, project, same]
  exact .refl _

/-- What is foretold of a config that has not been read depends on nothing else that has been
read. -/
theorem foretell_unread_congr (source : ws'.source = ws.source) (depth : Nat) {cell : ConfigCell}
    (alike : (ws.project cell.project).ReadsAlike (ws'.project cell.project))
    (unread : cell.contents = none) : ws'.foretell depth cell = ws.foretell depth cell := by
  induction depth generalizing cell with
  | zero => rfl
  | succ depth ih =>
    rw [ws'.foretell_of_unread depth unread, ws.foretell_of_unread depth unread,
      currentContents_alike source rfl rfl rfl alike]
    congr 2
    funext name
    exact ih alike rfl

/-- The same trees are foretold of all configs that were made before. -/
structure Foretells (ws ws' : Workspace σ) : Prop where
  source : ws'.source = ws.source
  alike : ∀ p, (ws.project p).ReadsAlike (ws'.project p)
  size_le : ws.configs.size ≤ ws'.configs.size
  trees : ∀ depth id, ws.HasConfig id →
    ws'.foretell depth (ws'.config id) = ws.foretell depth (ws.config id)

namespace Foretells

theorem refl (ws : Workspace σ) : Foretells ws ws :=
  ⟨rfl, fun _ => .refl _, Nat.le_refl _, fun _ _ _ => rfl⟩

/-- Foretelling loses no config. -/
theorem hasConfig (h : Foretells ws ws') {id : ConfigId} (known : ws.HasConfig id) :
    ws'.HasConfig id :=
  known.of_size_le h.size_le

theorem trans (h : Foretells ws ws') (h' : Foretells ws' ws'') : Foretells ws ws'' where
  source := h'.source.trans h.source
  alike := fun p => (h.alike p).trans (h'.alike p)
  size_le := Nat.le_trans h.size_le h'.size_le
  trees := fun depth id known =>
    (h'.trees depth id (h.hasConfig known)).trans (h.trees depth id known)

end Foretells

/-! ## Changes that leave it alone -/

/-- What is read of a config for the first time is what its document says; its imports lead to the
configs that were made for them. -/
theorem mapTargets_firstContents {D : Type} {id : ConfigId} (known : ws.HasConfig id)
    (unread : (ws.config id).contents = none) (f : ConfigCell → D) :
    (ws.firstContents id).mapTargets (fun t => f ((ws.afterReading id).config t))
      = (ws.currentContents (ws.config id)).mapTargets
          fun name => f (importedCell (ws.config id) name) := by
  have length : (numberTargets ws.configs.size
      ((ws.currentContents (ws.config id)).imports.map Import.target)).length
        = (ws.currentContents (ws.config id)).imports.length := by
    rw [length_numberTargets, List.length_map]
  rw [firstContents, Contents.mapTargets_withTargets _ length,
    map_numberTargets (g := fun name => f (importedCell (ws.config id) name)), List.map_map]
  · rfl
  · -- The config of each number was made for the import of that name.
    intro j n found
    rw [List.filterMap_map] at found
    have made : (ws.firstImports id)[j]? = some (importedCell (ws.config id) n) := by
      rw [firstImports, List.getElem?_map]
      exact congrArg (Option.map (importedCell (ws.config id))) found
    have other : (⟨ws.configs.size + j⟩ : ConfigId) ≠ id := by
      rintro rfl
      unfold HasConfig at known
      dsimp only at known
      omega
    rw [config_afterReading known unread, if_neg other, if_neg (by dsimp only; omega)]
    dsimp only
    rw [Nat.add_sub_cancel_left, made]
    rfl

/-- What is read of a config for the first time is what was foretold. -/
theorem foretell_firstContents (depth : Nat) {id : ConfigId} (known : ws.HasConfig id)
    (unread : (ws.config id).contents = none) :
    (ws.afterReading id).foretell (depth + 1) ((ws.afterReading id).config id)
      = ws.foretell (depth + 1) (ws.config id) := by
  have ext := extends_afterReading known
  have read : ((ws.afterReading id).config id).contents = some (ws.firstContents id) := by
    rw [config_afterReading known unread, if_pos rfl]
  have imported : ∀ name,
      (ws.afterReading id).foretell depth (importedCell (ws.config id) name)
        = ws.foretell depth (importedCell (ws.config id) name) := fun name =>
    foretell_unread_congr ext.source depth (readsAlike_of_projects (by rw [ext.rest]) _) rfl
  rw [foretell_of_read _ depth read, (ext.cells id known).name, ws.foretell_of_unread depth unread,
    mapTargets_firstContents known unread, funext imported]

/-- Reading a config foretells the same trees as before. -/
theorem foretells_afterReading (wired : ws.Wired) {id : ConfigId} (known : ws.HasConfig id) :
    Foretells ws (ws.afterReading id) := by
  cases unread : (ws.config id).contents with
  | some c =>
    rw [afterReading_of_read unread]
    exact .refl ws
  | none =>
    have ext := extends_afterReading known
    have projects : (ws.afterReading id).projects = ws.projects := by rw [ext.rest]
    have alike := readsAlike_of_projects projects
    refine ⟨ext.source, alike, ext.size_le, ?_⟩
    intro depth
    induction depth with
    | zero =>
      intro other known'
      rw [foretell, foretell, (ext.cells other known').name]
    | succ depth ih =>
      intro other known'
      by_cases it : other = id
      · rw [it]
        exact foretell_firstContents depth known unread
      · have same : (ws.afterReading id).config other = ws.config other := by
          rw [config_afterReading known unread, if_neg it,
            if_pos (show other.index < ws.configs.size from known')]
        rw [same]
        cases read : (ws.config other).contents with
        | none => exact foretell_unread_congr ext.source _ (alike _) read
        | some c =>
          rw [foretell_of_read _ depth read, foretell_of_read _ depth read]
          refine congrArg (ConfigTree.mk _) (c.mapTargets_congr fun t imported => ?_)
          exact ih t (wired.imports other c read t imported).2.1

/-- Reading changes no tree. -/
theorem foretells_of_reads (h : Reads ws ws') (wired : ws.Wired) : Foretells ws ws' := by
  induction h with
  | refl => exact .refl ws
  | read before id known ih => exact ih.trans (foretells_afterReading (before.wired wired) known)

/-- Where configs are what they were and projects read as before, nothing else matters: not which
configs there are besides, and not which sets depend on a config. -/
theorem foretells_of_cells (wired : ws.Wired) (source : ws'.source = ws.source)
    (alike : ∀ p, (ws.project p).ReadsAlike (ws'.project p))
    (size_le : ws.configs.size ≤ ws'.configs.size)
    (cells : ∀ id, ws.HasConfig id →
      ∃ dependents, ws'.config id = { ws.config id with dependents }) : Foretells ws ws' := by
  refine ⟨source, alike, size_le, fun depth => ?_⟩
  induction depth with
  | zero =>
    intro id known
    obtain ⟨_, cell⟩ := cells id known
    rw [cell, foretell, foretell]
  | succ depth ih =>
    intro id known
    obtain ⟨dependents, cell⟩ := cells id known
    rw [cell]
    cases read : (ws.config id).contents with
    | some c =>
      have read' : ({ ws.config id with dependents } : ConfigCell).contents = some c := read
      rw [foretell_of_read _ depth read', foretell_of_read _ depth read]
      refine congrArg (ConfigTree.mk _) (c.mapTargets_congr fun t imported => ?_)
      exact ih t (wired.imports id c read t imported).2.1
    | none =>
      have unread : ({ ws.config id with dependents } : ConfigCell).contents = none := read
      rw [foretell_unread_congr source _ (alike _) unread, ws.foretell_of_unread depth unread,
        ws.foretell_of_unread depth read]
      rfl

/-! ## Reading what was foretold -/

/-- A tree that has been read is foretold at any depth that it fits in. -/
theorem foretell_of_shows {depth depth' : Nat} {id : ConfigId} {t : ConfigTree}
    (shown : ws.Shows depth id t) (le : depth ≤ depth') :
    ws.foretell depth' (ws.config id) = t := by
  induction depth generalizing depth' id t with
  | zero => exact shown.elim
  | succ depth ih =>
    obtain ⟨depth', rfl⟩ : ∃ k, depth' = k + 1 := ⟨depth' - 1, by omega⟩
    obtain ⟨contents, targets, read, below, rfl⟩ := shown
    have followed : (contents.imports.map Import.target).map
        (Option.map fun id => ws.foretell depth' (ws.config id)) = targets := by
      generalize contents.imports.map Import.target = sources at below
      induction below with
      | nil => rfl
      | cons first _ ih' =>
        rw [List.map_cons, ih']
        cases first with
        | none => rfl
        | some shown => rw [Option.map_some, ih shown (by omega)]
    rw [List.map_map] at followed
    rw [foretell_of_read _ depth' read, Contents.mapTargets]
    exact congrArg (fun targets => (⟨_, contents.withTargets targets⟩ : ConfigTree)) followed

/-- What is read of a config is what was foretold, at any depth that there is room in. -/
theorem readWithin_eq_foretell {bound depth depth' : Nat} {id : ConfigId} (wired : ws.Wired)
    (bounds : Bounds ws.source bound) (fits : ws.FitsWithin bound depth id)
    (le : depth ≤ depth') :
    ((readWithin depth id).run ws).1 = ws.foretell depth' (ws.config id) := by
  obtain ⟨reads, shown⟩ := shows_readWithin wired bounds fits
  rw [← foretell_of_shows shown le]
  exact (foretells_of_reads reads wired).trees depth' id fits.hasConfig

/-! ## The tree of a config -/

/-- The tree of a config as it would be read now. -/
def tree (ws : Workspace σ) (id : ConfigId) : ConfigTree := ((readTree id).run ws).1

/-- A depth in which there is room for all trees. -/
def fullDepth (ws : Workspace σ) : Nat := ws.configs.size + DocumentSource.reach ws.source ""

/-- There is room for the tree of every config. -/
theorem fitsWithin_fullDepth (wired : ws.Wired) {id : ConfigId} (known : ws.HasConfig id) :
    ws.FitsWithin (DocumentSource.reach ws.source "") ws.fullDepth id := by
  refine (fitsWithin_of_wired wired _ known).mono ?_
  unfold fullDepth
  omega

section Finite

variable [FiniteSource σ]

/-- The tree of a config is what is foretold, at any depth in which there is room. -/
theorem tree_eq_foretell (wired : ws.Wired) {id : ConfigId} (known : ws.HasConfig id)
    {depth : Nat} (enough : ws.fullDepth ≤ depth) :
    ws.tree id = ws.foretell depth (ws.config id) := by
  have bounds := FiniteSource.bounds_reach ws.source
  have read : ws.tree id = ((readWithin (ws.depthBound id) id).run ws).1 := by
    rw [tree, run_readTree]
  have full : ∀ depth', ws.fullDepth ≤ depth' →
      ((readWithin ws.fullDepth id).run ws).1 = ws.foretell depth' (ws.config id) := fun _ =>
    readWithin_eq_foretell wired (bounds "") (fitsWithin_fullDepth wired known)
  calc ws.tree id
      = ws.foretell (ws.depthBound id + ws.fullDepth) (ws.config id) := by
        rw [read]
        exact readWithin_eq_foretell wired (bounds _) (fitsWithin_depthBound wired known)
          (Nat.le_add_right _ _)
    _ = ((readWithin ws.fullDepth id).run ws).1 := (full _ (Nat.le_add_left _ _)).symm
    _ = ws.foretell depth (ws.config id) := full depth enough

/-- Where the same is foretold, the same is read. -/
theorem Foretells.tree (h : Foretells ws ws') (wired : ws.Wired) (wired' : ws'.Wired)
    {id : ConfigId} (known : ws.HasConfig id) : ws'.tree id = ws.tree id := by
  rw [tree_eq_foretell wired' (h.hasConfig known) (Nat.le_add_left _ ws.fullDepth),
    tree_eq_foretell wired known (Nat.le_add_right _ ws'.fullDepth), h.trees _ _ known]

/-- The tree of a config that has been read is put together from those of what it imports. -/
theorem tree_of_read (wired : ws.Wired) {id : ConfigId} {c : Contents ConfigId}
    (read : (ws.config id).contents = some c) :
    ws.tree id = ⟨(ws.config id).name, c.mapTargets ws.tree⟩ := by
  rw [tree_eq_foretell wired (hasConfig_of_contents read) (Nat.le_succ _),
    foretell_of_read _ _ read]
  refine congrArg (ConfigTree.mk _) (c.mapTargets_congr fun t imported => ?_)
  exact (tree_eq_foretell wired (wired.imports id c read t imported).2.1 (Nat.le_refl _)).symm

end Finite

end Workspace

end BeanWiring
