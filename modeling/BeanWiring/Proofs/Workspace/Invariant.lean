/-
# The invariant of workspaces

What holds of a workspace whatever has been done to it.  Configs hang together, projects hold
configs that no import made, and a set that has been merged knows what it was merged from:
its members have been read with all their imports, they know the set as a dependent, and the
merged view is that of their trees.

A config that no import made is in no tree but its own.  So when it is reloaded, every set
that was merged from it is among its dependents, and forgets its merged view.  When a config is
reloaded that an import made, only the part of the invariant that is about configs stays.

Main statements: `Sound.reads`, `Sound.reloadConfig` and `Sound.mergeSet`, that reading,
reloading and merging preserve the invariant.
-/
import BeanWiring.Proofs.Workspace.ReadingTrees
import BeanWiring.Workspace.Sets

namespace BeanWiring

/-- A merged view lists as members those that it was merged from, in order. -/
theorem MergedSet.members_ofMembers {C : Type} (settings : SetSettings)
    (members : List (C × ConfigTree)) :
    (MergedSet.ofMembers settings members).members = members.map Prod.fst := by
  have general : ∀ m : MergedSet C,
      (members.foldl (fun m p => m.addMember settings p.1 p.2) m).members
        = m.members ++ members.map Prod.fst := by
    induction members with
    | nil =>
      intro m
      simp
    | cons p rest ih =>
      intro m
      rw [List.foldl_cons, ih, List.map_cons, MergedSet.addMember, List.append_assoc]
      rfl
  exact general {}

namespace Workspace

variable {σ : Type}

/-! ## The invariant -/

/-- A merged view that a set was given by merging: from configs that know the set, out of the
trees that are still shown. -/
structure MergedFrom (ws : Workspace σ) (id : SetId) (m : MergedSet ConfigId) : Prop where
  members : ∀ c ∈ m.members, ws.HasConfig c ∧ (ws.config c).origin.isImported = false ∧
    id ∈ (ws.config c).dependents
  trees : ∃ trees, List.Forall₂ (fun c t => ∃ depth, ws.Shows depth c t) m.members trees ∧
    m = .ofMembers (ws.set id).settings (m.members.zip trees)

/-- The invariant of workspaces. -/
structure Sound (ws : Workspace σ) : Prop extends Wired ws where
  held : ∀ p, ∀ entry ∈ (ws.project p).configs,
    ws.HasConfig entry.2 ∧ (ws.config entry.2).origin.isImported = false
  merged : ∀ id m, (ws.set id).merged = some m → ws.MergedFrom id m

/-- The part of the invariant that is about configs, and not about what sets were merged from. -/
structure Grounded (ws : Workspace σ) : Prop extends Wired ws where
  held : ∀ p, ∀ entry ∈ (ws.project p).configs,
    ws.HasConfig entry.2 ∧ (ws.config entry.2).origin.isImported = false

variable {ws ws' : Workspace σ}

/-- The invariant has a part that is about configs alone. -/
theorem Sound.grounded (h : ws.Sound) : ws.Grounded := ⟨h.toWired, h.held⟩

/-- What is merged from trees that are shown is merged from documents. -/
theorem MergedFrom.isOfDocuments {id : SetId} {m : MergedSet ConfigId} (new : ws.MergedFrom id m)
    (wired : ws.Wired) : m.IsOfDocuments (ws.set id).settings := by
  obtain ⟨trees, shown, view⟩ := new.trees
  refine ⟨m.members.zip trees, fun t listed => ?_, view⟩
  obtain ⟨depth, shown⟩ := (List.forall₂_iff_zip.1 shown).2 listed
  exact shown.areOfDocuments wired

/-! ## Reading -/

/-- A view stays one of trees that are shown if only more is read. -/
theorem MergedFrom.of_extends {id : SetId} {m : MergedSet ConfigId} (h : ws.MergedFrom id m)
    (ext : ws.Extends ws') : ws'.MergedFrom id m := by
  refine ⟨?_, ?_⟩
  · intro c hc
    obtain ⟨known, own, dependent⟩ := h.members c hc
    have cell := ext.cells c known
    exact ⟨ext.hasConfig known, cell.origin ▸ own, cell.dependents dependent⟩
  · obtain ⟨trees, shown, eq⟩ := h.trees
    refine ⟨trees, shown.imp fun c t => ?_, by rw [ext.set]; exact eq⟩
    rintro ⟨depth, shown⟩
    exact ⟨depth, ext.shows shown⟩

/-- Configs hang together as before if only more is read. -/
theorem Grounded.of_extends (h : ws.Grounded) (ext : ws.Extends ws') (wired : ws'.Wired) :
    ws'.Grounded where
  toWired := wired
  held := by
    intro p entry listed
    rw [ext.project] at listed
    obtain ⟨known, own⟩ := h.held p entry listed
    exact ⟨ext.hasConfig known, (ext.cells _ known).origin ▸ own⟩

/-- And so the invariant holds. -/
theorem Sound.of_extends (h : ws.Sound) (ext : ws.Extends ws') (wired : ws'.Wired) :
    ws'.Sound where
  toWired := wired
  held := (h.grounded.of_extends ext wired).held
  merged := by
    intro id m merged
    rw [ext.set] at merged
    exact (h.merged id m merged).of_extends ext

/-- Reading preserves the invariant. -/
theorem Sound.reads [DocumentSource σ] (h : ws.Sound) (reads : Reads ws ws') : ws'.Sound :=
  h.of_extends reads.toExtends (reads.wired h.toWired)

/-! ## Changes outside configs and sets -/

theorem config_congr (same : ws'.configs = ws.configs) (id : ConfigId) :
    ws'.config id = ws.config id := by
  rw [config, same, config]

theorem set_congr (same : ws'.sets = ws.sets) (id : SetId) : ws'.set id = ws.set id := by
  rw [set, same, set]

/-- What is shown depends on configs alone. -/
theorem shows_congr (same : ws'.configs = ws.configs) {depth : Nat} {id : ConfigId}
    {t : ConfigTree} (h : ws.Shows depth id t) : ws'.Shows depth id t := by
  refine Shows.of_agree (P := fun _ => True) ?_ (fun _ _ _ _ _ _ => trivial) trivial h
  intro id c _ read
  rw [config_congr same]
  exact ⟨read, rfl⟩

theorem Wired.congr (h : ws.Wired) (same : ws'.configs = ws.configs) : ws'.Wired := by
  refine ⟨?_, ?_, ?_⟩
  · intro id
    rw [config_congr same]
    exact h.chains id
  · intro id c read t imported
    rw [config_congr same] at read
    rw [config_congr same, HasConfig, same]
    exact h.imports id c read t imported
  · intro id c read
    rw [config_congr same] at read
    exact h.documents id c read

/-- A view depends on configs, and on the settings of its set. -/
theorem MergedFrom.congr {id : SetId} {m : MergedSet ConfigId} (h : ws.MergedFrom id m)
    (same : ws'.configs = ws.configs) (settings : (ws'.set id).settings = (ws.set id).settings) :
    ws'.MergedFrom id m := by
  refine ⟨?_, ?_⟩
  · intro c hc
    rw [config_congr same, HasConfig, same]
    exact h.members c hc
  · obtain ⟨trees, shown, eq⟩ := h.trees
    refine ⟨trees, shown.imp fun c t => ?_, by rw [settings]; exact eq⟩
    rintro ⟨depth, shown⟩
    exact ⟨depth, shows_congr same shown⟩

/-- Configs hang together if they do, and if projects hold only those that were not imported. -/
theorem Grounded.congr (h : ws.Grounded) (configs : ws'.configs = ws.configs)
    (held : ∀ p, ∀ entry ∈ (ws'.project p).configs,
      ws.HasConfig entry.2 ∧ (ws.config entry.2).origin.isImported = false) : ws'.Grounded where
  toWired := h.toWired.congr configs
  held := by
    intro p entry listed
    rw [config_congr configs, HasConfig, configs]
    exact held p entry listed

/-- What is done outside configs and sets does not matter, as long as projects hold configs
that no import made. -/
theorem Sound.congr (h : ws.Sound) (configs : ws'.configs = ws.configs)
    (sets : ws'.sets = ws.sets)
    (held : ∀ p, ∀ entry ∈ (ws'.project p).configs,
      ws.HasConfig entry.2 ∧ (ws.config entry.2).origin.isImported = false) : ws'.Sound where
  toWired := h.toWired.congr configs
  held := (h.grounded.congr configs held).held
  merged := by
    intro id m merged
    rw [set_congr sets] at merged
    exact (h.merged id m merged).congr configs (by rw [set_congr sets])

/-! ## Forgetting -/

/-- A change to a set that forgets its merged view. -/
theorem merged_updateSet {f : SetCell → SetCell} (forgets : ∀ cell, (f cell).merged = none)
    {id other : SetId} {m : MergedSet ConfigId}
    (merged : ((ws.updateSet id f).set other).merged = some m) :
    other ≠ id ∧ (ws.updateSet id f).set other = ws.set other := by
  rcases set_updateSet_cases ws id other f with same | ⟨-, new⟩
  · refine ⟨?_, same⟩
    rintro rfl
    rw [same] at merged
    have changed := set_updateSet ws other other f (hasSet_of_merged merged)
    rw [if_pos rfl] at changed
    rw [← same, changed, forgets] at merged
    cases merged
  · rw [new, forgets] at merged
    cases merged

/-- A set that forgets its view gives no cause for doubt. -/
theorem Sound.updateSet (h : ws.Sound) (id : SetId) {f : SetCell → SetCell}
    (forgets : ∀ cell, (f cell).merged = none) : (ws.updateSet id f).Sound where
  toWired := h.toWired.congr rfl
  held := h.held
  merged := by
    intro other m merged
    obtain ⟨-, same⟩ := merged_updateSet forgets merged
    rw [same] at merged
    exact (h.merged other m merged).congr rfl (by rw [same])

/-- Sets that are reset have no view, and the others stay as they are. -/
theorem merged_resetSets {ids : List SetId} {other : SetId} {m : MergedSet ConfigId}
    (merged : ((ws.resetSets ids).set other).merged = some m) :
    other ∉ ids ∧ (ws.resetSets ids).set other = ws.set other := by
  induction ids generalizing ws with
  | nil => exact ⟨List.not_mem_nil, rfl⟩
  | cons id rest ih =>
    have step : ws.resetSets (id :: rest) = (ws.resetSet id).resetSets rest := rfl
    rw [step] at merged ⊢
    obtain ⟨later, same⟩ := ih merged
    rw [same] at merged
    obtain ⟨now, same'⟩ := merged_updateSet (fun _ => rfl) merged
    refine ⟨?_, same.trans same'⟩
    rintro listed
    rcases List.mem_cons.1 listed with e | e
    · exact now e
    · exact later e

/-- Only sets are reset. -/
theorem resetSets_rest (ws : Workspace σ) (ids : List SetId) :
    ws.resetSets ids = { ws with sets := (ws.resetSets ids).sets } := by
  induction ids generalizing ws with
  | nil => rfl
  | cons id rest ih => exact ih (ws.resetSet id)

/-- Resets leave configs alone. -/
theorem configs_resetSets (ws : Workspace σ) (ids : List SetId) :
    (ws.resetSets ids).configs = ws.configs := by
  rw [resetSets_rest]

/-- And projects. -/
theorem projects_resetSets (ws : Workspace σ) (ids : List SetId) :
    (ws.resetSets ids).projects = ws.projects := by
  rw [resetSets_rest]

/-- A reload leaves documents alone. -/
theorem source_reloadConfig (ws : Workspace σ) (id : ConfigId) :
    (ws.reloadConfig id).source = ws.source := by
  rw [reloadConfig, resetSets_rest]
  rfl

/-- And projects. -/
theorem projects_reloadConfig (ws : Workspace σ) (id : ConfigId) :
    (ws.reloadConfig id).projects = ws.projects :=
  projects_resetSets _ _

/-- The cell of a config after some config was reloaded. -/
theorem config_reloadConfig (ws : Workspace σ) (id other : ConfigId) :
    (ws.reloadConfig id).config other = ws.config other ∨
      other = id ∧ (ws.reloadConfig id).config other = { ws.config id with contents := none } := by
  rw [reloadConfig, config_congr (configs_resetSets _ _)]
  exact config_updateConfig_cases ws id other _

/-- A reload forgets what was read of no other config. -/
theorem config_reloadConfig_of_ne {id other : ConfigId} (differ : other ≠ id) :
    (ws.reloadConfig id).config other = ws.config other := by
  rcases config_reloadConfig ws id other with same | ⟨it, -⟩
  · exact same
  · exact absurd it differ

/-- It makes no config, and loses none. -/
theorem size_reloadConfig (ws : Workspace σ) (id : ConfigId) :
    (ws.reloadConfig id).configs.size = ws.configs.size := by
  rw [reloadConfig, configs_resetSets, size_updateConfig]

/-- Whether configs hang together depends on what has been read, and on little else. -/
theorem Wired.of_cells (h : ws.Wired) (size : ws'.configs.size = ws.configs.size)
    (frame : ∀ id, (ws'.config id).name = (ws.config id).name ∧
      (ws'.config id).chain = (ws.config id).chain ∧
      (ws'.config id).origin = (ws.config id).origin)
    (kept : ∀ id c, (ws'.config id).contents = some c → (ws.config id).contents = some c) :
    ws'.Wired where
  chains := by
    intro id
    obtain ⟨name, chain, -⟩ := frame id
    rw [name, chain]
    exact h.chains id
  imports := by
    intro id c read t imported
    obtain ⟨larger, known, origin⟩ := h.imports id c (kept id c read) t imported
    rw [HasConfig, size, (frame t).2.2]
    exact ⟨larger, known, origin⟩
  documents := fun id c read => h.documents id c (kept id c read)

/-- Reloading a config changes nothing of a config but its contents. -/
theorem frame_reloadConfig (ws : Workspace σ) (id other : ConfigId) :
    ∃ contents, (ws.reloadConfig id).config other = { ws.config other with contents } := by
  rcases config_reloadConfig ws id other with same | ⟨rfl, new⟩
  · exact ⟨_, same⟩
  · exact ⟨none, new⟩

theorem hasConfig_reloadConfig (ws : Workspace σ) (id other : ConfigId) :
    (ws.reloadConfig id).HasConfig other ↔ ws.HasConfig other := by
  rw [HasConfig, size_reloadConfig, HasConfig]

/-- A reload leaves configs wired. -/
theorem wired_reloadConfig (h : ws.Wired) (id : ConfigId) : (ws.reloadConfig id).Wired := by
  refine h.of_cells (size_reloadConfig ws id) ?_ ?_
  · intro other
    obtain ⟨_, cell⟩ := frame_reloadConfig ws id other
    rw [cell]
    exact ⟨rfl, rfl, rfl⟩
  · intro other c read
    rcases config_reloadConfig ws id other with same | ⟨rfl, new⟩
    · rwa [same] at read
    · rw [new] at read
      cases read

/-- What is imported was made by an import. -/
theorem Wired.ne_of_imported (wired : ws.Wired) {id j t : ConfigId} {c : Contents ConfigId}
    (read : (ws.config j).contents = some c) (imported : t ∈ c.importedConfigs)
    (own : (ws.config id).origin.isImported = false) : t ≠ id := by
  rintro rfl
  have origin := (wired.imports j c read t imported).2.2
  rw [own] at origin
  cases origin

/-- The tree of another config is still shown after a config that no import made was
reloaded. -/
theorem Shows.reloadConfig (wired : ws.Wired) {id : ConfigId}
    (own : (ws.config id).origin.isImported = false) {depth : Nat} {other : ConfigId}
    {t : ConfigTree} (elsewhere : other ≠ id) (h : ws.Shows depth other t) :
    (ws.reloadConfig id).Shows depth other t := by
  refine Shows.of_agree (P := (· ≠ id)) ?_ ?_ elsewhere h
  · intro j c hj read
    rw [config_reloadConfig_of_ne hj]
    exact ⟨read, rfl⟩
  · intro j contents _ read t imported
    exact wired.ne_of_imported read imported own

/-- A set that does not depend on a config is still merged from what is shown after the config
was reloaded. -/
theorem MergedFrom.reloadConfig (wired : ws.Wired) {id : ConfigId}
    (own : (ws.config id).origin.isImported = false) {set : SetId} {m : MergedSet ConfigId}
    (h : ws.MergedFrom set m) (independent : set ∉ (ws.config id).dependents)
    (same : (ws.reloadConfig id).set set = ws.set set) :
    (ws.reloadConfig id).MergedFrom set m where
  members := by
    intro c hc
    obtain ⟨_, cell⟩ := frame_reloadConfig ws id c
    rw [cell, hasConfig_reloadConfig]
    exact h.members c hc
  trees := by
    obtain ⟨trees, shown, eq⟩ := h.trees
    have elsewhere : ∀ c ∈ m.members, c ≠ id := by
      rintro c hc rfl
      exact independent (h.members c hc).2.2
    refine ⟨trees, ((List.forall₂_and_left _ _).2 ⟨elsewhere, shown⟩).imp ?_, ?_⟩
    · rintro c t ⟨hc, depth, shown⟩
      exact ⟨depth, shown.reloadConfig wired own hc⟩
    · rw [same]
      exact eq

/-- Whatever config is reloaded, configs hang together as before. -/
theorem Grounded.reloadConfig (h : ws.Grounded) (id : ConfigId) :
    (ws.reloadConfig id).Grounded where
  toWired := wired_reloadConfig h.toWired id
  held := by
    intro p entry listed
    rw [project, projects_reloadConfig] at listed
    obtain ⟨_, cell⟩ := frame_reloadConfig ws id entry.2
    rw [cell, hasConfig_reloadConfig]
    exact h.held p entry listed

/-- Reloading a config that no import made preserves the invariant. -/
theorem Sound.reloadConfig (h : ws.Sound) {id : ConfigId}
    (own : (ws.config id).origin.isImported = false) : (ws.reloadConfig id).Sound where
  toWired := wired_reloadConfig h.toWired id
  held := (h.grounded.reloadConfig id).held
  merged := by
    intro other m merged
    obtain ⟨independent, same⟩ := merged_resetSets merged
    have same' : (ws.reloadConfig id).set other = ws.set other := same
    rw [same'] at merged
    exact (h.merged other m merged).reloadConfig h.toWired own independent same'

/-! ## Merging -/

/-- Noting a set with a config adds it there, and changes no other config. -/
theorem config_addDependent (ws : Workspace σ) (set : SetId) (id : ConfigId)
    (known : ws.HasConfig id) (other : ConfigId) :
    (ws.config other).Extends ((addDependent set ws id).config other) ∧
      (other = id → set ∈ ((addDependent set ws id).config other).dependents) := by
  rw [addDependent, config_updateConfig ws id other _ known]
  by_cases same : other = id
  · subst same
    rw [if_pos rfl]
    by_cases listed : set ∈ (ws.config other).dependents
    · exact ⟨⟨rfl, rfl, rfl, rfl, fun _ => id, by simp [listed]⟩, fun _ => by simp [listed]⟩
    · exact ⟨⟨rfl, rfl, rfl, rfl, fun _ => id, by simp [listed]⟩, fun _ => by simp [listed]⟩
  · rw [if_neg same]
    exact ⟨.refl _, fun e => absurd e same⟩

/-- Noting a set with a config only adds to what is known. -/
theorem extends_addDependent (ws : Workspace σ) (set : SetId) (id : ConfigId)
    (known : ws.HasConfig id) : ws.Extends (addDependent set ws id) where
  rest := rfl
  size_le := Nat.le_of_eq (size_updateConfig ws id _).symm
  cells := fun other _ => (config_addDependent ws set id known other).1

/-- And it leaves configs wired. -/
theorem wired_addDependent (h : ws.Wired) (set : SetId) (id : ConfigId) :
    (addDependent set ws id).Wired := by
  refine h.of_cells (size_updateConfig ws id _) ?_ ?_
  · intro other
    rcases config_updateConfig_cases ws id other _ with same | ⟨rfl, new⟩
    · rw [addDependent, same]
      exact ⟨rfl, rfl, rfl⟩
    · rw [addDependent, new]
      exact ⟨rfl, rfl, rfl⟩
  · intro other c read
    rcases config_updateConfig_cases ws id other _ with same | ⟨rfl, new⟩
    · rw [addDependent, same] at read
      exact read
    · rw [addDependent, new] at read
      exact read

/-- Configs that a set is merged from know the set afterwards. -/
theorem addDependents (set : SetId) (ids : List ConfigId) (known : ∀ c ∈ ids, ws.HasConfig c)
    (wired : ws.Wired) :
    ws.Extends (ids.foldl (addDependent set) ws) ∧ (ids.foldl (addDependent set) ws).Wired ∧
      ∀ c ∈ ids, set ∈ ((ids.foldl (addDependent set) ws).config c).dependents := by
  induction ids generalizing ws with
  | nil => exact ⟨.refl ws, wired, fun _ hc => absurd hc List.not_mem_nil⟩
  | cons id rest ih =>
    have first := extends_addDependent ws set id (known id List.mem_cons_self)
    obtain ⟨others, wired', noted⟩ := ih
      (fun c hc => first.hasConfig (known c (List.mem_cons_of_mem id hc)))
      (wired_addDependent wired set id)
    refine ⟨first.trans others, wired', ?_⟩
    intro c hc
    rcases List.mem_cons.1 hc with rfl | hc
    · have cell := others.cells c (first.hasConfig (known c List.mem_cons_self))
      exact cell.dependents
        ((config_addDependent ws set c (known c List.mem_cons_self) c).2 rfl)
    · exact noted c hc

/-- What a name stands for in a project is held by some project. -/
theorem held_of_configOf? {p : ProjectId} {name : String} {c : ConfigId}
    (found : ws.configOf? p name = some c) :
    ∃ p, ∃ entry ∈ (ws.project p).configs, entry.2 = c := by
  obtain ⟨before, after, split, -⟩ := List.lookup_eq_some_iff.1 found
  refine ⟨p, (name, c), ?_, rfl⟩
  rw [split]
  exact List.mem_append_right _ List.mem_cons_self

/-- A config that a member of a set stands for is held by a project. -/
theorem held_of_resolveConfig? {p : ProjectId} {name : String} {c : ConfigId}
    (found : ws.resolveConfig? p name = some c) :
    ∃ p, ∃ entry ∈ (ws.project p).configs, entry.2 = c := by
  unfold resolveConfig? at found
  dsimp only at found
  split at found
  · exact held_of_configOf? found
  · split at found
    · exact held_of_configOf? found
    · split at found
      · obtain ⟨⟨p, c'⟩, external, rfl⟩ := Option.map_eq_some_iff.1 found
        simp only [externalConfig?, Option.bind_eq_bind, Option.bind_eq_some_iff] at external
        obtain ⟨⟨_, _⟩, _, p', _, c'', found', same⟩ := external
        cases Option.some.inj same
        exact held_of_configOf? found'
      · cases found

/-- What a set would be merged from is held by some project. -/
theorem held_of_memberConfigs {cell : SetCell} {c : ConfigId}
    (member : c ∈ ws.memberConfigs cell) :
    ∃ p, ∃ entry ∈ (ws.project p).configs, entry.2 = c := by
  unfold memberConfigs at member
  split at member
  · obtain ⟨name, -, found⟩ := List.mem_filterMap.1 member
    exact held_of_resolveConfig? found
  · cases member

/-- The configs that a set would be merged from were made, and not by imports. -/
theorem Grounded.memberConfigs (h : ws.Grounded) {cell : SetCell} {c : ConfigId}
    (member : c ∈ ws.memberConfigs cell) :
    ws.HasConfig c ∧ (ws.config c).origin.isImported = false := by
  obtain ⟨p, entry, listed, rfl⟩ := held_of_memberConfigs member
  exact h.held p entry listed

/-- So the members of a set were made, and not by imports. -/
theorem Sound.memberConfigs (h : ws.Sound) {cell : SetCell} {c : ConfigId}
    (member : c ∈ ws.memberConfigs cell) :
    ws.HasConfig c ∧ (ws.config c).origin.isImported = false :=
  h.grounded.memberConfigs member

section Merge

variable [DocumentSource σ]

/-- Merging reads the trees of the members, and then notes the set with each of them. -/
theorem run_mergeSet (ws : Workspace σ) (id : SetId) :
    (mergeSet id).run ws
      = let members := ws.memberConfigs (ws.set id)
        let trees := (members.mapM readTree).run ws
        (.ofMembers (ws.set id).settings (members.zip trees.1),
          members.foldl (addDependent id) trees.2) :=
  rfl

variable [FiniteSource σ]

/-- Merging only adds to what is known of configs; the merged view is that of the members, and
is one that the set may be given. -/
theorem Grounded.mergeSet (h : ws.Grounded) (id : SetId) :
    ws.Extends ((Workspace.mergeSet id).run ws).2 ∧ ((Workspace.mergeSet id).run ws).2.Wired ∧
      ((Workspace.mergeSet id).run ws).1.members = ws.memberConfigs (ws.set id) ∧
      ((Workspace.mergeSet id).run ws).2.MergedFrom id ((Workspace.mergeSet id).run ws).1 := by
  obtain ⟨reads, shown⟩ := shows_mapM_readTree h.toWired fun c (hc : c ∈ ws.memberConfigs
    (ws.set id)) => (h.memberConfigs hc).1
  have read := reads.toExtends
  -- Noting the set with its members leaves everything shown that has been read.
  obtain ⟨noted, wired, dependent⟩ := addDependents id (ws.memberConfigs (ws.set id))
    (fun c hc => read.hasConfig (h.memberConfigs hc).1) (reads.wired h.toWired)
  have ext := read.trans noted
  have members : ((Workspace.mergeSet id).run ws).1.members = ws.memberConfigs (ws.set id) := by
    rw [run_mergeSet, MergedSet.members_ofMembers, List.map_fst_zip]
    exact Nat.le_of_eq shown.length_eq
  refine ⟨ext, wired, members, ?_, ?_⟩
  · rw [members]
    intro c hc
    obtain ⟨known, own⟩ := h.memberConfigs hc
    exact ⟨ext.hasConfig known, (ext.cells c known).origin ▸ own, dependent c hc⟩
  · rw [members]
    refine ⟨_, shown.imp fun c t => ?_, ?_⟩
    · rintro ⟨depth, shown⟩
      exact ⟨depth, noted.shows shown⟩
    · rw [run_mergeSet]
      show _ = MergedSet.ofMembers ((_ : Workspace σ).set id).settings _
      rw [ext.set]

/-- Merging preserves the invariant. -/
theorem Sound.mergeSet (h : ws.Sound) (id : SetId) :
    ws.Extends ((Workspace.mergeSet id).run ws).2 ∧ ((Workspace.mergeSet id).run ws).2.Sound ∧
      ((Workspace.mergeSet id).run ws).1.members = ws.memberConfigs (ws.set id) ∧
      ((Workspace.mergeSet id).run ws).2.MergedFrom id ((Workspace.mergeSet id).run ws).1 := by
  obtain ⟨ext, wired, merge⟩ := h.grounded.mergeSet id
  exact ⟨ext, h.of_extends ext wired, merge⟩

end Merge

end Workspace

end BeanWiring
