/-
# Scenes

What the validation of a config within sets looks at.  To see it, configs are read and sets are
merged one after the other; but what is seen is what was there before, and neither the order nor
what has been read or merged already matters.

Main statements:

* `looksSame_of_reads`, `looksSame_readSet` : reading and merging leave what is seen alone;
* `run_scene` : what a scene shows, config by config and set by set.
-/
import BeanWiring.Proofs.Workspace.Dependents

namespace BeanWiring.Workspace

variable {σ : Type} [DocumentSource σ] {ws ws' ws'' : Workspace σ}

/-! ## Members -/

/-- The members that a set has, or would have if it were merged now. -/
def membersOf (ws : Workspace σ) (set : SetId) : List ConfigId := ((readSet set).run ws).1.members

/-- The members of a merged set are those that it was merged from. -/
theorem membersOf_of_merged {set : SetId} {m : MergedSet ConfigId}
    (merged : (ws.set set).merged = some m) : ws.membersOf set = m.members := by
  rw [membersOf, readSet_of_merged merged]

section Finite

variable [FiniteSource σ]

/-- The members of an unmerged set are the configs that its names stand for now. -/
theorem membersOf_of_unmerged (grounded : ws.Grounded) {set : SetId}
    (unmerged : (ws.set set).merged = none) :
    ws.membersOf set = ws.memberConfigs (ws.set set) := by
  obtain ⟨-, -, members, -⟩ := grounded.mergeSet set
  rw [membersOf, run_readSet_of_unmerged unmerged]
  exact members

/-- The members of a set are configs that were made. -/
theorem hasConfig_of_mem_membersOf (steady : ws.Steady) {set : SetId} {c : ConfigId}
    (member : c ∈ ws.membersOf set) : ws.HasConfig c := by
  cases merged : (ws.set set).merged with
  | some m =>
    rw [membersOf_of_merged merged] at member
    exact steady.hasConfig merged member
  | none =>
    rw [membersOf_of_unmerged steady.toGrounded merged] at member
    exact (steady.memberConfigs member).1

end Finite

/-! ## Workspaces that look the same -/

/-- Configs have the trees that they had, and sets the names, settings and members. -/
structure LooksSame (ws ws' : Workspace σ) : Prop where
  steady : ws'.Steady
  hasConfig : ∀ id, ws.HasConfig id → ws'.HasConfig id
  trees : ∀ id, ws.HasConfig id → ws'.tree id = ws.tree id
  names : ∀ set, (ws'.set set).name = (ws.set set).name
  settings : ∀ set, (ws'.set set).settings = (ws.set set).settings
  members : ∀ set, ws'.membersOf set = ws.membersOf set

namespace LooksSame

theorem refl (steady : ws.Steady) : LooksSame ws ws :=
  ⟨steady, fun _ => id, fun _ _ => rfl, fun _ => rfl, fun _ => rfl, fun _ => rfl⟩

theorem trans (h : LooksSame ws ws') (h' : LooksSame ws' ws'') : LooksSame ws ws'' where
  steady := h'.steady
  hasConfig := fun id known => h'.hasConfig id (h.hasConfig id known)
  trees := fun id known => (h'.trees id (h.hasConfig id known)).trans (h.trees id known)
  names := fun set => (h'.names set).trans (h.names set)
  settings := fun set => (h'.settings set).trans (h.settings set)
  members := fun set => (h'.members set).trans (h.members set)

end LooksSame

variable [FiniteSource σ]

/-! ### Reading -/

/-- A workspace looks the same after an extension that foretells the same trees. -/
theorem looksSame_of_extends (steady : ws.Steady) (steady' : ws'.Steady) (ext : ws.Extends ws')
    (foretells : Foretells ws ws') : LooksSame ws ws' where
  steady := steady'
  hasConfig := fun _ => ext.hasConfig
  trees := fun _ => foretells.tree steady.toWired steady'.toWired
  names := fun set => congrArg SetCell.name (ext.set set)
  settings := fun set => congrArg SetCell.settings (ext.set set)
  members := by
    intro set
    cases merged : (ws.set set).merged with
    | some m => rw [membersOf_of_merged merged, membersOf_of_merged ((ext.set set).symm ▸ merged)]
    | none =>
      rw [membersOf_of_unmerged steady.toGrounded merged,
        membersOf_of_unmerged steady'.toGrounded ((ext.set set).symm ▸ merged), ext.set,
        ext.forgets.memberConfigs]

/-- A workspace looks the same after reading configs. -/
theorem looksSame_of_reads (steady : ws.Steady) (h : Reads ws ws') : LooksSame ws ws' :=
  looksSame_of_extends steady (steady.reads h) h.toExtends (foretells_of_reads h steady.toWired)

/-! ### Merging -/

omit [FiniteSource σ] in
/-- Noting a set with configs foretells the same trees. -/
theorem foretells_addDependents (wired : ws.Wired) (set : SetId) (ids : List ConfigId) :
    Foretells ws (ids.foldl (addDependent set) ws) := by
  induction ids generalizing ws with
  | nil => exact .refl ws
  | cons id rest ih =>
    have first : Foretells ws (addDependent set ws id) := by
      refine foretells_of_cells wired rfl (readsAlike_of_projects rfl)
        (Nat.le_of_eq (size_updateConfig ws id _).symm) fun other _ => ?_
      rcases config_updateConfig_cases ws id other _ with same | ⟨rfl, new⟩
      · exact ⟨_, same⟩
      · exact ⟨_, new⟩
    exact first.trans (ih (wired_addDependent wired set id))

/-- The members of a set are noted with it when it is merged. -/
theorem looksSame_mergeSet (steady : ws.Steady) (set : SetId) :
    LooksSame ws ((mergeSet set).run ws).2 := by
  obtain ⟨ext, -⟩ := steady.mergeSet set
  have known : ∀ c ∈ ws.memberConfigs (ws.set set),
      ws.HasConfig c ∧ (ws.config c).origin.isImported = false := fun _ => steady.memberConfigs
  obtain ⟨reads, -⟩ := shows_mapM_readTree steady.toWired fun c hc => (known c hc).1
  have changes := changes_addDependents set (ws.memberConfigs (ws.set set)) fun c hc =>
    (reads.toExtends.cells c (known c hc).1).origin ▸ (known c hc).2
  exact looksSame_of_extends steady ((steady.reads reads).changes changes) ext
    ((foretells_of_reads reads steady.toWired).trans
      (foretells_addDependents (reads.wired steady.toWired) set _))

/-- A merged view that is noted has the members that the set would have been given. -/
theorem looksSame_noteMerged (steady : ws.Steady) {set : SetId} {m : MergedSet ConfigId}
    (unmerged : (ws.set set).merged = none) (new : ws.MergedFrom set m)
    (members : m.members = ws.memberConfigs (ws.set set)) :
    LooksSame ws (ws.noteMerged set m) := by
  have steady' : (ws.noteMerged set m).Steady :=
    steady.change (.note ws set m (fun c member => (new.members c member).2.2)
      (new.isOfDocuments steady.toWired))
  have foretells : Foretells ws (ws.noteMerged set m) :=
    foretells_of_cells steady.toWired rfl (readsAlike_of_projects rfl) (Nat.le_refl _)
      fun _ _ => ⟨_, rfl⟩
  have cell : ∀ other, ∃ merged, (ws.noteMerged set m).set other
      = { ws.set other with merged } := by
    intro other
    rcases set_noteMerged_cases ws set other m with same | ⟨rfl, changed⟩
    · exact ⟨_, same⟩
    · exact ⟨_, changed⟩
  refine ⟨steady', fun _ => foretells.hasConfig,
    fun _ => foretells.tree steady.toWired steady'.toWired, ?_, ?_, ?_⟩
  · intro other
    obtain ⟨_, eq⟩ := cell other
    rw [eq]
  · intro other
    obtain ⟨_, eq⟩ := cell other
    rw [eq]
  · intro other
    rcases set_noteMerged_cases ws set other m with same | ⟨rfl, changed⟩
    · cases merged : (ws.set other).merged with
      | some m' => rw [membersOf_of_merged merged, membersOf_of_merged (same.symm ▸ merged)]
      | none =>
        rw [membersOf_of_unmerged steady.toGrounded merged,
          membersOf_of_unmerged steady'.toGrounded (same.symm ▸ merged), same]
        rfl
    · rw [membersOf_of_merged (congrArg SetCell.merged changed), members,
        membersOf_of_unmerged steady.toGrounded unmerged]

/-- A workspace looks the same after a set was read. -/
theorem looksSame_readSet (steady : ws.Steady) (set : SetId) :
    LooksSame ws ((readSet set).run ws).2 := by
  cases merged : (ws.set set).merged with
  | some m =>
    rw [readSet_of_merged merged]
    exact .refl steady
  | none =>
    obtain ⟨ext, -, members, new⟩ := steady.mergeSet set
    have unmerged : (((mergeSet set).run ws).2.set set).merged = none :=
      (ext.set set).symm ▸ merged
    have current : ((mergeSet set).run ws).1.members
        = ((mergeSet set).run ws).2.memberConfigs (((mergeSet set).run ws).2.set set) := by
      rw [members, ext.set, ext.forgets.memberConfigs]
    have same := looksSame_mergeSet steady set
    rw [run_readSet_of_unmerged merged]
    exact same.trans (looksSame_noteMerged same.steady unmerged new current)

/-! ## Scenes -/

omit [FiniteSource σ] in
/-- Where each action leaves what is seen alone and answers from it, so do the actions one after
the other. -/
theorem mapM_of_looksSame {A B : Type} (f : A → StateM (Workspace σ) B) {g : A → B} (xs : List A)
    (step : ∀ ws', LooksSame ws ws' → ∀ x ∈ xs,
      ((f x).run ws').1 = g x ∧ LooksSame ws' ((f x).run ws').2)
    (same : LooksSame ws ws') :
    ((xs.mapM f).run ws').1 = xs.map g ∧ LooksSame ws' ((xs.mapM f).run ws').2 := by
  induction xs generalizing ws' with
  | nil => exact ⟨rfl, .refl same.steady⟩
  | cons x xs ih =>
    obtain ⟨first, kept⟩ := step ws' same x List.mem_cons_self
    obtain ⟨others, kept'⟩ := ih (fun _ same a ha => step _ same a (List.mem_cons_of_mem x ha))
      (same.trans kept)
    rw [run_mapM_cons, List.map_cons]
    exact ⟨by rw [first, others], kept.trans kept'⟩

/-- A member of a set as seen from a config. -/
def memberView (ws : Workspace σ) (config member : ConfigId) : SetMember :=
  if member = config then .self else .other (ws.tree member).toContext

/-- A config set as seen from a config. -/
def setView (ws : Workspace σ) (config : ConfigId) (set : SetId) : SetView :=
  ⟨(ws.set set).name, (ws.set set).settings, (ws.membersOf set).map (ws.memberView config)⟩

/-- A member is viewed as it looks before, and the workspace looks the same after. -/
theorem run_viewMember (same : LooksSame ws ws') (config : ConfigId) {member : ConfigId}
    (known : ws.HasConfig member) :
    ((viewMember config member).run ws').1 = ws.memberView config member ∧
      LooksSame ws' ((viewMember config member).run ws').2 := by
  by_cases self : member = config
  · rw [viewMember, memberView, if_pos self, if_pos self]
    exact ⟨rfl, .refl same.steady⟩
  · rw [viewMember, memberView, if_neg self, if_neg self, ← same.trees member known]
    have known' := same.hasConfig member known
    exact ⟨rfl, looksSame_of_reads same.steady (shows_readTree same.steady.toWired known').1⟩

/-- A set is seen as it is, whatever was read to see it. -/
theorem run_viewSet (steady : ws.Steady) (same : LooksSame ws ws') (config : ConfigId)
    (set : SetId) :
    ((viewSet config set).run ws').1
        = (ws.setView config set, .set set :: (ws.membersOf set).map ContextId.config) ∧
      LooksSame ws' ((viewSet config set).run ws').2 := by
  have merging := looksSame_readSet same.steady set
  have members : ((readSet set).run ws').1.members = ws.membersOf set := same.members set
  obtain ⟨views, kept⟩ := mapM_of_looksSame (viewMember config) (ws.membersOf set)
    (fun _ same c hc => run_viewMember same config (hasConfig_of_mem_membersOf steady hc))
    (same.trans merging)
  have run : (viewSet config set).run ws' =
      let merged := ((readSet set).run ws').1
      let views := (merged.members.mapM (viewMember config)).run ((readSet set).run ws').2
      ((⟨(ws'.set set).name, (ws'.set set).settings, views.1⟩,
        .set set :: merged.members.map ContextId.config), views.2) := rfl
  rw [run]
  dsimp only
  rw [members, views, same.names, same.settings]
  exact ⟨rfl, merging.trans kept⟩

/-- A scene shows the config and the sets as they are. -/
theorem run_scene (steady : ws.Steady) {config : ConfigId} (known : ws.HasConfig config)
    (sets : List SetId) :
    ((scene config sets).run ws).1
      = ⟨ws.tree config, sets.map (ws.setView config),
        .config config :: sets.flatMap fun set =>
          .set set :: (ws.membersOf set).map ContextId.config⟩ := by
  have reading := looksSame_of_reads steady (shows_readTree steady.toWired known).1
  obtain ⟨views, -⟩ := mapM_of_looksSame (viewSet config) sets
    (fun _ same set _ => run_viewSet steady same config set) reading
  have run : ((scene config sets).run ws).1 =
      let views := ((sets.mapM (viewSet config)).run ((readTree config).run ws).2).1
      ⟨ws.tree config, views.map Prod.fst, .config config :: views.flatMap Prod.snd⟩ := rfl
  rw [run, views]
  dsimp only
  rw [List.map_map, List.flatMap_map]
  rfl

end BeanWiring.Workspace
