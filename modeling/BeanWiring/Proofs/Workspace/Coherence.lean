/-
# Merged views and what they are views of

When the merged view that a config set was given is the one that merging would give it now.
Documents, reloads, switches, settings and questions keep it so, in any order, as long as
projects hold the same configs and the model holds the same projects, and no config is reloaded by
itself that an import made.

Main statements:

* `Reachable.sound` : the invariant holds as long as no imported config is reloaded by itself;
* `coherent_of_contentRun` : changes of content leave merged views right.
-/
import Mathlib.Logic.Relation
import BeanWiring.Proofs.Workspace.Management
import BeanWiring.Proofs.Workspace.Queries

namespace BeanWiring.Workspace

variable {σ : Type}

/-! ## Steps -/

/-- Nothing was made yet. -/
theorem sound_start (source : σ) : ({ source } : Workspace σ).Sound where
  chains := fun _ => List.nodup_singleton _
  imports := by
    intro id c read
    cases read
  documents := by
    intro id c read
    cases read
  held := by
    intro p entry listed
    cases listed
  merged := by
    intro id m merged
    cases merged

variable [DocumentSource σ]

/-- A change of documents, of what has been read, of switches or of the settings of a set; or a
question.  Projects keep their configs, and the model keeps its projects. -/
inductive ContentStep : Workspace σ → Workspace σ → Prop
  | documents (ws : Workspace σ) (source : σ) : ContentStep ws { ws with source }
  | reloadConfig (ws : Workspace σ) (id : ConfigId)
      (own : (ws.config id).origin.isImported = false) : ContentStep ws (ws.reloadConfig id)
  | reload {ws ws' : Workspace σ} (name : String) (done : ws.reload name = .ok ws') :
      ContentStep ws ws'
  | refresh {ws ws' : Workspace σ} (names : List String) (done : ws.refresh = .ok (names, ws')) :
      ContentStep ws ws'
  | enableImports (ws : Workspace σ) (p : ProjectId) (enabled : Bool) :
      ContentStep ws (ws.enableImports p enabled)
  | addMember (ws : Workspace σ) (id : SetId) (name : String) :
      ContentStep ws (ws.addMember id name).2
  | removeMember (ws : Workspace σ) (id : SetId) (name : String) :
      ContentStep ws (ws.removeMember id name).2
  | allowBeanOverriding (ws : Workspace σ) (id : SetId) (allowed : Bool) :
      ContentStep ws (ws.allowBeanOverriding id allowed)
  | allowAliasOverriding (ws : Workspace σ) (id : SetId) (allowed : Bool) :
      ContentStep ws (ws.allowAliasOverriding id allowed)
  | markIncomplete (ws : Workspace σ) (id : SetId) (isIncomplete : Bool) :
      ContentStep ws (ws.markIncomplete id isIncomplete)
  | resetSet (ws : Workspace σ) (id : SetId) : ContentStep ws (ws.resetSet id)
  | query {ws ws' : Workspace σ} (step : QueryStep ws ws') : ContentStep ws ws'

/-- Changes of content, one after the other. -/
abbrev ContentRun : Workspace σ → Workspace σ → Prop :=
  Relation.ReflTransGen ContentStep

/-- A workspace that can come about, over whatever documents it starts with, if no config is
reloaded by itself that an import made.  With such reloads, sets can be left behind that were merged
from what was imported before; `FreelyReachable` has these workspaces too. -/
inductive Reachable : Workspace σ → Prop
  | start (source : σ) : Reachable { source }
  | content {ws ws' : Workspace σ} (before : Reachable ws) (step : ContentStep ws ws') :
      Reachable ws'
  | management {ws ws' : Workspace σ} (before : Reachable ws) (step : ManagementStep ws ws') :
      Reachable ws'

variable {ws ws' : Workspace σ}

variable [FiniteSource σ]

/-- Changes of content preserve the invariant, and leave settled sets settled. -/
theorem ContentStep.keeps (step : ContentStep ws ws') : Keeps ws ws' := by
  -- Some operations find the configs to reload by the invariant.
  have of_sound : (ws.Sound → Safe ws ws') → Keeps ws ws' := by
    intro safe
    exact ⟨fun h => (safe h).sound h, fun h _ => (safe h).forgets.settled⟩
  cases step with
  | documents source =>
    have safe : Safe ws { ws with source } := safe_of_same rfl rfl rfl rfl rfl
    exact safe.keeps
  | reloadConfig id own => exact (safe_reloadConfig own).keeps
  | reload name done => exact of_sound fun h => safe_reload h.grounded done
  | refresh names done => exact of_sound fun h => safe_refresh h.grounded done
  | enableImports p enabled => exact of_sound fun h => safe_enableImports h.grounded p enabled
  | addMember id name => exact (safe_addMember ws id name).keeps
  | removeMember id name => exact (safe_removeMember ws id name).keeps
  | allowBeanOverriding id allowed => exact (safe_changeSettings ws id _).keeps
  | allowAliasOverriding id allowed => exact (safe_changeSettings ws id _).keeps
  | markIncomplete id isIncomplete => exact (safe_changeSettings ws id _).keeps
  | resetSet id => exact (safe_resetSet ws id).keeps
  | query step => exact step.keeps

theorem ContentRun.keeps (run : ContentRun ws ws') : Keeps ws ws' := by
  induction run with
  | refl => exact .refl ws
  | tail _ step ih => exact ih.trans step.keeps

/-- The invariant holds as long as no imported config is reloaded by itself. -/
theorem Reachable.sound (h : Reachable ws) : ws.Sound := by
  induction h with
  | start source => exact sound_start source
  | content _ step ih => exact step.keeps.sound ih
  | management _ step ih => exact step.sound ih

/-! ## Merged views -/

omit [FiniteSource σ] in
/-- Merging a set whose members have been read gives the view of the trees that are shown. -/
theorem run_mergeSet_of_shows {id : SetId} {trees : List ConfigTree} (wired : ws.Wired)
    (shown : List.Forall₂ (fun c t => ∃ depth, ws.Shows depth c t)
      (ws.memberConfigs (ws.set id)) trees) :
    ((mergeSet id).run ws).1
      = .ofMembers (ws.set id).settings ((ws.memberConfigs (ws.set id)).zip trees) := by
  have read : ((ws.memberConfigs (ws.set id)).mapM readTree).run ws = (trees, ws) := by
    refine mapM_of_forall₂ (shown.imp ?_)
    rintro c t ⟨depth, shown⟩
    exact readTree_of_shows wired shown
  rw [run_mergeSet]
  dsimp only
  rw [read]

/-- A merged view is the one that merging would give now if its members are those of now. -/
theorem Sound.mergeSet_eq_iff (h : ws.Sound) {id : SetId} {m : MergedSet ConfigId}
    (merged : (ws.set id).merged = some m) :
    ((Workspace.mergeSet id).run ws).1 = m ↔ m.members = ws.memberConfigs (ws.set id) := by
  constructor
  · rintro rfl
    obtain ⟨-, -, members, -⟩ := h.mergeSet id
    exact members
  · intro members
    -- The trees that the set was merged from are still shown, so they are read again.
    obtain ⟨trees, shown, view⟩ := (h.merged id m merged).trees
    rw [members] at shown view
    rw [run_mergeSet_of_shows h.toWired shown]
    exact view.symm

/-- If the set has been merged, then its merged view is the one that merging would give it
now. -/
def Coherent (ws : Workspace σ) (id : SetId) : Prop :=
  ∀ m, (ws.set id).merged = some m → ((mergeSet id).run ws).1 = m

theorem Sound.coherent_iff (h : ws.Sound) (id : SetId) : ws.Coherent id ↔ ws.Settled id :=
  forall₂_congr fun _ merged => h.mergeSet_eq_iff merged

/-! ## Changes of content -/

/-- Changes of content, in any order, leave the merged view of a set right: one that was right
before, or one that the set did not have yet. -/
theorem coherent_of_contentRun {ws₀ : Workspace σ} (start : Reachable ws₀) {id : SetId}
    (coherent : ws₀.Coherent id) (run : ContentRun ws₀ ws) : ws.Coherent id := by
  -- Whether a set is coherent can be told from the configs that its members stand for.
  have sound := run.keeps.sound start.sound
  rw [sound.coherent_iff]
  refine run.keeps.settled start.sound id ?_
  rwa [← start.sound.coherent_iff]

/-- A project with a set whose only member is no config yet. -/
def waiting : Workspace DocumentStore where
  source := {}
  sets := #[{ name := "all", settings := { members := ["a.xml"] } }]
  projects := #[{ name := "demo", sets := [("all", ⟨0⟩)] }]
  inUse := [("demo", ⟨0⟩)]

theorem reachable_waiting : Reachable waiting := by
  have empty : Reachable ({ source := {} } : Workspace DocumentStore) := .start _
  have used := empty.management (.useProject _ "demo" .markup {} {})
  have named := used.management (.addSet (show addSet _ ⟨0⟩ "all" = .ok (⟨0⟩, _) from rfl))
  exact named.content (.addMember _ ⟨0⟩ "a.xml")

/-- The config is added and the set asked for its members; then the document of the config is
written, and the config reloaded. -/
def rewritten : Workspace DocumentStore :=
  let ws := ((members ⟨0⟩).run (waiting.addConfigs ⟨0⟩ ["a.xml"])).2
  { ws with source := ws.source.put "a.xml" "<beans/>" }.reloadConfig ⟨0⟩

/-- Asked again, the set is right. -/
theorem coherent_rewritten : ∃ m,
    (((members ⟨0⟩).run rewritten).2.set ⟨0⟩).merged = some m ∧
      ((mergeSet ⟨0⟩).run ((members ⟨0⟩).run rewritten).2).1 = m := by
  have start : Reachable (waiting.addConfigs ⟨0⟩ ["a.xml"]) :=
    reachable_waiting.management (.addConfigs _ _ _)
  have unmerged : (waiting.addConfigs ⟨0⟩ ["a.xml"]).Coherent ⟨0⟩ := by
    intro m merged
    cases merged
  have first : ContentRun (waiting.addConfigs ⟨0⟩ ["a.xml"]) _ :=
    .single (.query (.members _ ⟨0⟩ (by decide)))
  have reloaded : ContentRun _ rewritten :=
    (first.tail (.documents _ _)).tail (.reloadConfig _ ⟨0⟩ rfl)
  have merged := merged_readSet (reloaded.keeps.sound start.sound)
    (show rewritten.HasSet ⟨0⟩ by decide)
  have run := reloaded.tail (.query (.members _ ⟨0⟩ (by decide)))
  exact ⟨_, merged, coherent_of_contentRun start unmerged run _ merged⟩

end BeanWiring.Workspace
