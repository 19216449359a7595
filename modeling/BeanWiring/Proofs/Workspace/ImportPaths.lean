/-
# Paths of imports

A path through the tree of a config leads from the config to one that it imports, to one that this
one imports, and so on.  Every config knows the names above it, whether it was read long ago or has
not been read yet, so no name comes twice on a path.  And where nothing has been read yet, what
becomes of an import element depends on the documents and on the names above it alone.

Main statements:

* `FreelyReachable.linked` : configs that imports made know what imports them;
* `nodup_of_leads` : the names on a path are distinct;
* `expands_of_leads` : what becomes of the import elements of a config in the tree;
* `isCanonical_of_leads` : below a canonical name, all names are canonical.
-/
import BeanWiring.Proofs.Config.Locations
import BeanWiring.Proofs.Workspace.Changes
import BeanWiring.Proofs.Workspace.Foresight

namespace BeanWiring

/-! ## Paths -/

/-- A config in a tree, with the names of those that it is imported through, outermost first. -/
inductive ConfigTree.Leads : ConfigTree → (above : List String) → ConfigTree → Prop
  | here (t : ConfigTree) : Leads t [] t
  | down {t imported node : ConfigTree} {above : List String}
      (listed : imported ∈ t.contents.importedConfigs) (further : Leads imported above node) :
      Leads t (t.name :: above) node

/-- A path ends at once, or leads to what the last config above its end imports. -/
theorem ConfigTree.Leads.last_cases {t node : ConfigTree} {above : List String}
    (path : t.Leads above node) : above = [] ∧ node = t ∨ ∃ parent before,
      above = before ++ [parent.name] ∧ t.Leads before parent ∧
        node ∈ parent.contents.importedConfigs := by
  induction path with
  | here t => exact .inl ⟨rfl, rfl⟩
  | @down t imported node above listed further ih =>
    refine .inr ?_
    rcases ih with ⟨rfl, rfl⟩ | ⟨parent, before, rfl, path, last⟩
    · exact ⟨t, [], rfl, .here t, listed⟩
    · exact ⟨parent, t.name :: before, rfl, .down listed path, last⟩

namespace Workspace

variable {σ : Type} {ws ws' : Workspace σ}

/-! ## What configs know of those above them -/

/-- What a config imports was made for it, and knows the names above it. -/
def Linked (ws : Workspace σ) : Prop :=
  ∀ id c, (ws.config id).contents = some c → ∀ t ∈ c.importedConfigs, ws.HasConfig t ∧
    (ws.config t).chain = (ws.config id).chain ++ [(ws.config id).name] ∧
    (ws.config t).project = (ws.config id).project

theorem Linked.of_sheds (h : ws.Linked) (sheds : Sheds ws ws') : ws'.Linked := by
  intro id c read t imported
  have before := sheds.contents id c read
  obtain ⟨known, chain, project⟩ := h id c before t imported
  obtain ⟨name', chain', project'⟩ := sheds.frame id (hasConfig_of_contents before)
  obtain ⟨-, below, same⟩ := sheds.frame t known
  rw [below, same, name', chain', project']
  exact ⟨known.of_size_le sheds.size_le, chain, project⟩

variable [DocumentSource σ]

theorem Linked.afterReading (h : ws.Linked) {id : ConfigId} (known : ws.HasConfig id) :
    (ws.afterReading id).Linked := by
  cases unread : (ws.config id).contents with
  | some c => rwa [afterReading_of_read unread]
  | none =>
    have ext := extends_afterReading known
    intro other c read t imported
    rcases contents_afterReading_cases known unread read with ⟨rfl, rfl⟩ | before
    · obtain ⟨-, made, cell⟩ := isImport_of_firstContents known unread imported
      have same := ext.cells other known
      rw [same.name, same.chain, same.project]
      exact ⟨made, cell.chain, cell.project⟩
    · obtain ⟨known', chain, project⟩ := h other c before t imported
      have same := ext.cells other (hasConfig_of_contents before)
      have below := ext.cells t known'
      rw [below.chain, below.project, same.name, same.chain, same.project]
      exact ⟨ext.hasConfig known', chain, project⟩

theorem Linked.reads (h : ws.Linked) (reads : Reads ws ws') : ws'.Linked := by
  induction reads with
  | refl => exact h
  | read _ id known ih => exact ih.afterReading known

theorem Linked.change (h : ws.Linked) (change : Change ws ws') : ws'.Linked := by
  rcases change.read_or_sheds with ⟨id, known, -, rfl⟩ | sheds
  · exact h.afterReading known
  · exact h.of_sheds sheds

variable [FiniteSource σ]

/-- This is so whatever has been done. -/
theorem FreelyReachable.linked (h : FreelyReachable ws) : ws.Linked := by
  refine h.of_changes ?_ (fun _ _ before => before) fun change before => before.change change
  intro source id c read
  cases read

/-! ## Distinct names -/

omit [DocumentSource σ] [FiniteSource σ] in
theorem exists_of_forall₂ {A B : Type} {R : A → B → Prop} {xs : List A} {ys : List B}
    (related : List.Forall₂ R xs ys) {y : B} (listed : y ∈ ys) : ∃ x ∈ xs, R x y := by
  induction related with
  | nil => cases listed
  | @cons x z xs ys here _ ih =>
    rcases List.mem_cons.1 listed with rfl | later
    · exact ⟨x, List.mem_cons_self, here⟩
    · obtain ⟨x', there, rel⟩ := ih later
      exact ⟨x', List.mem_cons_of_mem x there, rel⟩

omit [DocumentSource σ] [FiniteSource σ] in
/-- Every config in a tree that is shown has a cell that knows the names above it. -/
theorem Linked.exists_cell (h : ws.Linked) {depth : Nat} {id : ConfigId} {t node : ConfigTree}
    {above : List String} (shown : ws.Shows depth id t) (path : t.Leads above node) :
    ∃ j, (ws.config j).name = node.name ∧ (ws.config j).chain = (ws.config id).chain ++ above := by
  induction path generalizing depth id with
  | here t =>
    cases depth with
    | zero => exact shown.elim
    | succ depth =>
      obtain ⟨contents, targets, read, below, rfl⟩ := shown
      exact ⟨id, rfl, (List.append_nil _).symm⟩
  | @down t imported node above listed _ ih =>
    cases depth with
    | zero => exact shown.elim
    | succ depth =>
      obtain ⟨contents, targets, read, below, rfl⟩ := shown
      -- The imported tree is that of a config that was imported.
      have length : targets.length = contents.imports.length := by
        rw [← below.length_eq, List.length_map]
      have target : some imported ∈ targets := by
        rw [Contents.mem_importedConfigs] at listed
        rwa [contents.map_target_withTargets length] at listed
      obtain ⟨source, there, rel⟩ := exists_of_forall₂ below target
      cases rel with
      | @some j _ shown =>
        obtain ⟨cell, name, chain⟩ := ih shown
        obtain ⟨-, known, -⟩ := h id contents read j (Contents.mem_importedConfigs.2 there)
        refine ⟨cell, name, ?_⟩
        rw [chain, known, List.append_assoc]
        rfl

/-- No name comes twice on a path through the tree of a config, or among those above the config. -/
theorem nodup_of_leads (reachable : FreelyReachable ws) {id : ConfigId} (known : ws.HasConfig id)
    {above : List String} {node : ConfigTree} (path : (ws.tree id).Leads above node) :
    ((ws.config id).chain ++ above ++ [node.name]).Nodup := by
  have wired := reachable.grounded.toWired
  obtain ⟨reads, depth, shown⟩ := shows_readTree wired known
  obtain ⟨j, name, chain⟩ := (reachable.linked.reads reads).exists_cell shown path
  have once := (reads.wired wired).chains j
  rwa [name, chain, (reads.toExtends.cells id known).chain] at once

/-! ## Import elements -/

/-- What the reading of a config depends on that is reached from another by a path. -/
def surroundingsBelow (ws : Workspace σ) (cell : ConfigCell) (above : List String)
    (node : ConfigTree) : Contents.Surroundings :=
  { ws.surroundings cell with name := node.name, chain := cell.chain ++ above }

omit [FiniteSource σ] in
/-- Every config in a tree that is foretold of a config which has not been read is foretold of one
in the same project that knows the names above it. -/
theorem exists_cell_of_foretell {bound depth : Nat} (bounds : Bounds ws.source bound)
    {cell : ConfigCell} (unread : cell.contents = none) (once : (cell.chain ++ [cell.name]).Nodup)
    (room : bound ≤ depth + ws.existing cell) {above : List String} {t node : ConfigTree}
    (path : t.Leads above node) (foretold : t = ws.foretell (depth + 1) cell) :
    ∃ depth' cell', cell'.contents = none ∧ cell'.project = cell.project ∧
      cell'.name = node.name ∧ cell'.chain = cell.chain ++ above ∧
      node = ws.foretell (depth' + 1) cell' := by
  induction path generalizing depth cell with
  | here t =>
    rw [ws.foretell_of_unread depth unread] at foretold
    refine ⟨depth, cell, unread, rfl, ?_, (List.append_nil _).symm, ?_⟩
    · rw [foretold]
    · rw [foretold, ws.foretell_of_unread depth unread]
  | @down t imported node above listed _ ih =>
    rw [ws.foretell_of_unread depth unread] at foretold
    rw [foretold, Contents.importedConfigs_mapTargets] at listed
    obtain ⟨name, target, rfl⟩ := List.mem_map.1 listed
    -- One more name on the path exists, so there is room for it one level below.
    have made := isImport_importedCell target
    have one_more := existing_of_isImport made
    have le := existing_le bounds (made.once once)
    obtain ⟨depth, rfl⟩ : ∃ k, depth = k + 1 := ⟨depth - 1, by omega⟩
    obtain ⟨depth', cell', unread', project, same, chain, node_eq⟩ :=
      ih made.unread (made.once once) (by omega) rfl
    refine ⟨depth', cell', unread', project, same, ?_, node_eq⟩
    rw [chain, made.chain, List.append_assoc, foretold]
    rfl

/-- In the tree of a config that has not been read, every config has the imports and the problems
that the events of its document make, below the names above it. -/
theorem expands_of_leads (reachable : FreelyReachable ws) {id : ConfigId} (known : ws.HasConfig id)
    (unread : (ws.config id).contents = none) {above : List String} {node : ConfigTree}
    (path : (ws.tree id).Leads above node) :
    Contents.Expands (ws.surroundingsBelow (ws.config id) above node)
      ((ws.project (ws.config id).project).reader.yields ws.source node.name)
      (node.contents.mapTargets ConfigTree.name) := by
  have wired := reachable.grounded.toWired
  have bounds := FiniteSource.bounds_reach ws.source ""
  have room : DocumentSource.reach ws.source "" ≤ ws.fullDepth + ws.existing (ws.config id) := by
    unfold fullDepth
    omega
  have foretold := tree_eq_foretell wired known (Nat.le_succ ws.fullDepth)
  obtain ⟨depth, cell, unread', project, name, chain, rfl⟩ :=
    exists_cell_of_foretell bounds unread (wired.chains id) room path foretold
  have names : ((ws.foretell (depth + 1) cell).contents.mapTargets ConfigTree.name)
      = ws.currentContents cell := by
    rw [ws.foretell_of_unread depth unread', Contents.mapTargets_mapTargets]
    simp only [name_foretell]
    exact Contents.mapTargets_id _
  have surroundings : ws.surroundingsBelow (ws.config id) above (ws.foretell (depth + 1) cell)
      = ws.surroundings cell := by
    rw [surroundingsBelow, ← chain, ← name, surroundings, surroundings, project]
  rw [names, surroundings, ← project, ← name]
  exact Contents.expands_readContents _ _

/-! ## Canonical names -/

/-- If the name of a config that has not been read is canonical, so are all names in its tree: where
no name comes twice on a path, no place does. -/
theorem isCanonical_of_leads (reachable : FreelyReachable ws) {id : ConfigId}
    (known : ws.HasConfig id) (unread : (ws.config id).contents = none)
    (canonical : IsCanonical (ws.config id).name)
    {above : List String} {node : ConfigTree} (path : (ws.tree id).Leads above node) :
    IsCanonical node.name := by
  induction length : above.length generalizing above node with
  | zero =>
    rcases path.last_cases with ⟨-, rfl⟩ | ⟨parent, before, rfl, -, -⟩
    · have foretold := tree_eq_foretell reachable.grounded.toWired known (Nat.le_succ ws.fullDepth)
      rwa [foretold, name_foretell]
    · simp at length
  | succ n ih =>
    rcases path.last_cases with ⟨rfl, -⟩ | ⟨parent, before, rfl, path', last⟩
    · cases length
    · -- The last config is what an import element of the one above it leads to.
      have named := (expands_of_leads reachable known unread path').imports
      have target : some node.name ∈
          (parent.contents.mapTargets ConfigTree.name).imports.map Import.target := by
        rw [List.mem_map, ← List.mem_filterMap, ← Contents.importedConfigs,
          Contents.importedConfigs_mapTargets]
        exact List.mem_map_of_mem last
      obtain ⟨i, listed, leads⟩ := List.mem_map.1 target
      obtain ⟨element, -, -, -, resolved⟩ := exists_of_forall₂ named listed
      obtain ⟨-, -, same⟩ := (resolved node.name).1 leads
      rw [same]
      exact (ih path' (by simpa using length)).resolveImport element.1

end Workspace

end BeanWiring
