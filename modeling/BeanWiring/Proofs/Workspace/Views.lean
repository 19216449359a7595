/-
# Views of sets

A set that was merged keeps its view until it is told to forget it.  So the view is that of trees
which its members had once.  They are mostly the trees that they have now, and then the set is in
step with its members; only a reload of a config that an import made leaves sets behind, since none
is told of it.  Projects tell no set, either, when they are given configs, nor does the model when
it is given projects or loses them; then views stay those of the members that sets had before.

Main statements:

* `Steady.exists_trees` : what a set answers with is merged from trees, whatever was done;
* `Reachable.inStep` : they are the trees of now if no imported config was reloaded by itself;
* `readSet_eq_mergeSet_iff` : which sets answer, after projects changed, as if they were merged
  again.
-/
import BeanWiring.Proofs.Workspace.Scenes
import BeanWiring.Proofs.Workspace.Stability

namespace BeanWiring.Workspace

variable {σ : Type} [DocumentSource σ] {ws ws' : Workspace σ} {set : SetId}

/-! ## Views of trees -/

/-- The view that the trees of some configs give a set. -/
def viewOf (ws : Workspace σ) (set : SetId) (configs : List ConfigId) : MergedSet ConfigId :=
  .ofMembers (ws.set set).settings (configs.map fun c => (c, ws.tree c))

/-- The members of the view are the configs. -/
@[simp]
theorem members_viewOf (ws : Workspace σ) (set : SetId) (configs : List ConfigId) :
    (ws.viewOf set configs).members = configs := by
  rw [viewOf, MergedSet.members_ofMembers, List.map_map]
  exact List.map_id configs

/-- The set is in step with its members: it was not merged yet, or its view is that of the trees
which they have now. -/
def InStep (ws : Workspace σ) (set : SetId) : Prop :=
  ∀ m, (ws.set set).merged = some m → m = ws.viewOf set m.members

/-- A set that was not merged has no view that could be left behind. -/
theorem inStep_of_unmerged (unmerged : (ws.set set).merged = none) : ws.InStep set := by
  intro m merged
  cases unmerged.symm.trans merged

variable [FiniteSource σ]

/-- Merging a set gives the view of the trees that its members have. -/
theorem Grounded.mergeSet_eq_viewOf (h : ws.Grounded) (set : SetId) :
    ((Workspace.mergeSet set).run ws).1 = ws.viewOf set (ws.memberConfigs (ws.set set)) := by
  have known : ∀ c ∈ ws.memberConfigs (ws.set set), ws.HasConfig c := fun c hc =>
    (h.memberConfigs hc).1
  obtain ⟨reads, shown⟩ := shows_mapM_readTree h.toWired known
  have wired := reads.wired h.toWired
  have foretells := foretells_of_reads reads h.toWired
  have read : List.Forall₂ (fun c t => ws.tree c = t) (ws.memberConfigs (ws.set set))
      (((ws.memberConfigs (ws.set set)).mapM readTree).run ws).1 := by
    refine ((List.forall₂_and_left _ _).2 ⟨known, shown⟩).imp ?_
    rintro c t ⟨known, depth, shown⟩
    rw [← foretells.tree h.toWired wired known]
    exact congrArg Prod.fst (readTree_of_shows wired shown)
  have trees : (ws.memberConfigs (ws.set set)).map ws.tree
      = (((ws.memberConfigs (ws.set set)).mapM readTree).run ws).1 := by
    rw [← List.forall₂_eq_eq_eq, List.forall₂_map_left_iff]
    exact read
  rw [run_mergeSet, viewOf, List.map_prod_left_eq_zip, trees]

/-- A set is in step exactly if it answers with the trees that its members have. -/
theorem inStep_iff (grounded : ws.Grounded) :
    ws.InStep set ↔ ((readSet set).run ws).1 = ws.viewOf set (ws.membersOf set) := by
  cases merged : (ws.set set).merged with
  | some m =>
    rw [readSet_of_merged merged, membersOf_of_merged merged, InStep, merged]
    constructor
    · exact fun inStep => inStep m rfl
    · rintro view m' same
      cases same
      exact view
  | none =>
    refine iff_of_true (inStep_of_unmerged merged) ?_
    rw [run_readSet_of_unmerged merged, membersOf_of_unmerged grounded merged]
    exact grounded.mergeSet_eq_viewOf set

/-- Whatever has been done, a set answers with what was merged from trees, one of each member, and
each read from documents. -/
theorem Steady.exists_trees (steady : ws.Steady) (set : SetId) :
    ∃ trees : List (ConfigId × ConfigTree), trees.map Prod.fst = ws.membersOf set ∧
      (∀ t ∈ trees, t.2.AreOfDocuments) ∧
      ((readSet set).run ws).1 = .ofMembers (ws.set set).settings trees := by
  obtain ⟨trees, documents, view⟩ :
      ((readSet set).run ws).1.IsOfDocuments (ws.set set).settings := by
    cases merged : (ws.set set).merged with
    | some m =>
      rw [readSet_of_merged merged]
      exact steady.composed set m merged
    | none =>
      obtain ⟨ext, wired, -, new⟩ := steady.mergeSet set
      rw [run_readSet_of_unmerged merged, ← ext.set set]
      exact new.isOfDocuments wired
  refine ⟨trees, ?_, documents, view⟩
  rw [membersOf, view, MergedSet.members_ofMembers]

omit [FiniteSource σ] in
/-- Where the trees are still shown that sets were merged from, sets are in step. -/
theorem Sound.inStep (sound : ws.Sound) (set : SetId) : ws.InStep set := by
  intro m merged
  obtain ⟨trees, shown, view⟩ := (sound.merged set m merged).trees
  have read : List.Forall₂ (fun c t => ws.tree c = t) m.members trees := by
    refine shown.imp ?_
    rintro c t ⟨depth, shown⟩
    exact congrArg Prod.fst (readTree_of_shows sound.toWired shown)
  have current : m.members.map ws.tree = trees := by
    rw [← List.forall₂_eq_eq_eq, List.forall₂_map_left_iff]
    exact read
  rw [viewOf, List.map_prod_left_eq_zip, current]
  exact view

/-- Sets are in step as long as no imported config is reloaded by itself. -/
theorem Reachable.inStep (reachable : Reachable ws) (set : SetId) : ws.InStep set :=
  reachable.sound.inStep set

omit [FiniteSource σ] in
/-- A set that stays as it was is in step as before where trees stay as they were. -/
theorem inStep_congr (steady : ws.Steady) (same : ws'.set set = ws.set set)
    (trees : ∀ c, ws.HasConfig c → ws'.tree c = ws.tree c) :
    ws'.InStep set ↔ ws.InStep set := by
  rw [InStep, InStep, same]
  refine forall₂_congr fun m merged => ?_
  have view : ws'.viewOf set m.members = ws.viewOf set m.members := by
    rw [viewOf, viewOf, same]
    refine congrArg _ (List.map_congr_left fun c member => ?_)
    rw [trees c (steady.hasConfig merged member)]
  rw [view]

/-! ### A set that is left behind -/

/-- The config with an import is the member of a set. -/
def gathered : Workspace DocumentStore :=
  match importing.addSet ⟨0⟩ "all" with
  | .ok (id, ws) => (ws.addMember id "a.xml").2
  | .error _ => importing

theorem reachable_gathered : Reachable gathered := by
  unfold gathered
  split
  · rename_i id ws done
    exact (reachable_importing.management (.addSet done)).content (.addMember ws id "a.xml")
  · exact reachable_importing

/-- The set was asked for its members, and then the imported document was removed. -/
def orphaned : Workspace DocumentStore :=
  let ws := ((members ⟨0⟩).run gathered).2
  { ws with source := ws.source.remove "b.xml" }

theorem reachable_orphaned : Reachable orphaned :=
  (reachable_gathered.content (.query (.members _ ⟨0⟩ (by decide)))).content (.documents _ _)

/-- The imported config is reloaded.  The set was merged from the tree that its member had
before. -/
theorem not_inStep_orphaned :
    FreelyReachable (orphaned.reloadConfig ⟨1⟩) ∧ ¬(orphaned.reloadConfig ⟨1⟩).InStep ⟨0⟩ := by
  refine ⟨reachable_orphaned.freely.reloadConfig ⟨1⟩, fun inStep => ?_⟩
  rw [inStep_iff (reachable_orphaned.freely.reloadConfig ⟨1⟩).grounded] at inStep
  have before : ((readSet ⟨0⟩).run (orphaned.reloadConfig ⟨1⟩)).1.beans.map Bean.name
      = ["first", "second"] := by
    decide +kernel
  have now : ((orphaned.reloadConfig ⟨1⟩).viewOf ⟨0⟩
      ((orphaned.reloadConfig ⟨1⟩).membersOf ⟨0⟩)).beans.map Bean.name = ["first"] := by
    decide +kernel
  rw [inStep, now] at before
  cases before

/-! ## Changes of projects -/

omit [DocumentSource σ] [FiniteSource σ] in
/-- A config was added to a project, or a project was added to the model or removed from it. -/
inductive ProjectChange : Workspace σ → Workspace σ → Prop
  | addConfig {ws ws' : Workspace σ} {p : ProjectId} {name : String} {id : ConfigId}
      (done : ws.addConfig p name = .ok (id, ws')) : ProjectChange ws ws'
  | addProject {ws ws' : Workspace σ} {p : ProjectId} (done : ws.addProject p = .ok ws') :
      ProjectChange ws ws'
  | removeProject {ws ws' : Workspace σ} {name : String} {p : ProjectId}
      (done : ws.removeProject name = .ok (p, ws')) : ProjectChange ws ws'

namespace ProjectChange

omit [FiniteSource σ]

omit [DocumentSource σ] in
theorem managementStep (change : ProjectChange ws ws') : ManagementStep ws ws' := by
  cases change with
  | addConfig done => exact .addConfig done
  | addProject done => exact .addProject done
  | removeProject done => exact .removeProject done

omit [DocumentSource σ] in
/-- Sets are not told. -/
theorem sets (change : ProjectChange ws ws') : ws'.sets = ws.sets := by
  cases change with
  | addConfig done =>
    obtain ⟨-, -, rfl⟩ := eq_of_insertConfig done
    rfl
  | addProject done =>
    obtain ⟨-, -, rfl⟩ := eq_of_addProject done
    rfl
  | removeProject done =>
    obtain ⟨-, -, rfl⟩ := eq_of_removeProject done
    rfl

/-- No config that there was is read otherwise. -/
theorem foretells (change : ProjectChange ws ws') (wired : ws.Wired) : Foretells ws ws' := by
  cases change with
  | @addConfig p name id done =>
    obtain ⟨-, size, cells, projects⟩ := insertConfig_eq_ok done
    have kept : ∀ other, ws.HasConfig other → ws'.config other = ws.config other := by
      intro other known
      rw [cells, if_neg (Nat.ne_of_lt known)]
    refine foretells_of_cells wired (source_insertConfig done) (fun q => ?_) (by omega)
      fun other known => ⟨_, kept other known⟩
    rcases projects q with same | ⟨-, more⟩
    · exact same ▸ .refl _
    · exact more ▸ ⟨rfl, rfl, rfl⟩
  | @addProject p done =>
    obtain ⟨-, -, rfl⟩ := eq_of_addProject done
    refine foretells_of_cells wired rfl (fun q => ?_) (Nat.le_refl _) fun _ _ => ⟨_, rfl⟩
    rcases project_updateProject_cases ws p q fun cell => { cell with isAttached := true } with
      same | ⟨rfl, attached⟩
    · exact same ▸ .refl _
    · exact attached ▸ ⟨rfl, rfl, rfl⟩
  | removeProject done =>
    obtain ⟨-, -, rfl⟩ := eq_of_removeProject done
    exact foretells_of_cells wired rfl (readsAlike_of_projects rfl) (Nat.le_refl _)
      fun _ _ => ⟨_, rfl⟩

end ProjectChange

/-- After a config or a project was added or removed, a set answers as if it were merged from
scratch exactly if it was in step with its members, and had not been merged before or was merged
from the configs which its members stand for now. -/
theorem readSet_eq_mergeSet_iff (reachable : FreelyReachable ws) (change : ProjectChange ws ws')
    (id : SetId) :
    ((readSet id).run ws').1 = ((mergeSet id).run ws').1 ↔
      ws.InStep id ∧
        ∀ m, (ws.set id).merged = some m → m.members = ws'.memberConfigs (ws'.set id) := by
  have steady := reachable.steady
  have steady' := (reachable.management change.managementStep).steady
  have same : ws'.set id = ws.set id := set_congr change.sets id
  have trees : ∀ c, ws.HasConfig c → ws'.tree c = ws.tree c := fun c =>
    (change.foretells steady.toWired).tree steady.toWired steady'.toWired
  rw [← inStep_congr steady same trees, steady'.mergeSet_eq_viewOf id, ← same]
  cases merged : (ws'.set id).merged with
  | none =>
    refine iff_of_true ?_ ⟨inStep_of_unmerged merged, nofun⟩
    rw [run_readSet_of_unmerged merged, steady'.mergeSet_eq_viewOf id]
  | some m =>
    rw [readSet_of_merged merged]
    constructor
    · intro view
      have members := congrArg MergedSet.members view
      rw [members_viewOf] at members
      refine ⟨fun m' merged' => ?_, fun m' merged' => ?_⟩
      · cases merged.symm.trans merged'
        rw [members]
        exact view
      · cases merged'
        exact members
    · rintro ⟨inStep, members⟩
      rw [← members m rfl]
      exact inStep m merged

/-- The set is asked for its members before its config is added. -/
def overtaken : Workspace DocumentStore :=
  ((members ⟨0⟩).run waiting).2.addConfigs ⟨0⟩ ["a.xml"]

/-- The set goes on without the config. -/
theorem stale_overtaken :
    ((readSet ⟨0⟩).run overtaken).1 ≠ ((mergeSet ⟨0⟩).run overtaken).1 := by
  have reachable : Reachable ((members ⟨0⟩).run waiting).2 :=
    reachable_waiting.content (.query (.members _ ⟨0⟩ (by decide)))
  have change : ProjectChange ((members ⟨0⟩).run waiting).2 overtaken :=
    .addConfig (show addConfig _ ⟨0⟩ "a.xml" = .ok (⟨0⟩, _) from rfl)
  rw [Ne, readSet_eq_mergeSet_iff reachable.freely change]
  rintro ⟨-, current⟩
  have members : ([] : List ConfigId) = [⟨0⟩] := current _ rfl
  cases members

end BeanWiring.Workspace
