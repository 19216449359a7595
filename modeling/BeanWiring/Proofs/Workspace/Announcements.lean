/-
# Announcements

When a config of the model is reloaded, the listeners are told of the config and of the sets that
have it as a member.  The merged views that are forgotten are those of the sets that are told of,
and besides those of the sets that were merged from the config at any time: a config knows the sets
that were merged from it, and it is never told that one of them has dropped it.  So a set may be
forgotten of which nobody is told, though never one that the config can be seen in.

Main statements:

* `mem_modelSetsWith_iff` : which sets are told of;
* `Contains.of_merged` : the sets that were merged from a config, and may still show it, have it;
* `announcements_reload` : what a reload tells, and what it forgets.
-/
import BeanWiring.Proofs.Workspace.ExternalNames
import BeanWiring.Proofs.Workspace.WithinSets

namespace BeanWiring

namespace Workspace

variable {σ : Type} {ws ws' : Workspace σ} {p q : ProjectId} {c : ConfigId} {s : SetId}

/-! ## Sets with a config -/

/-- A set has a config as a member: by its external name, or in the project of the config by its
name alone. -/
def Contains (ws : Workspace σ) (s : SetId) (c : ConfigId) : Prop :=
  ws.hasMember s (ws.externalNameOf c) = true ∨
    (ws.set s).project = (ws.config c).project ∧ ws.hasMember s (ws.config c).name = true

instance (ws : Workspace σ) (s : SetId) (c : ConfigId) : Decidable (ws.Contains s c) :=
  inferInstanceAs (Decidable (_ ∨ _))

/-- A set that was merged from a config, and does not know better, has it as a member. -/
theorem Contains.of_merged (traced : ws.Traced) {m : MergedSet ConfigId}
    (merged : (ws.set s).merged = some m) (member : c ∈ m.members) : ws.Contains s c := by
  obtain ⟨-, name, listed, names⟩ := traced.merged s m merged c member
  have isMember : ws.hasMember s name = true := List.contains_iff_mem.2 listed
  rcases names with ⟨rfl, project⟩ | rfl
  · exact .inr ⟨project.symm, isMember⟩
  · exact .inl isMember

section Rostered

variable (rostered : ws.Rostered) (orderly : ws.model.Orderly) (holds : ws.Holds)
include rostered

/-- A config that is found belongs to a project of the model. -/
theorem inModel_of_findConfig? (orderly : ws.model.Orderly) (holds : ws.Holds) {name : String}
    (found : ws.findConfig? name = some (p, c)) : ws.InModel p ∧ c ∈ ws.configsOf p := by
  unfold findConfig? at found
  split at found
  · obtain ⟨⟨inside, held, -⟩, -⟩ :=
      (externalConfig?_eq_some_iff rostered orderly holds).1 found
    exact ⟨inside, held⟩
  · obtain ⟨entry, listed, named⟩ := List.exists_of_findSome?_eq_some found
    obtain ⟨d, named, same⟩ := Option.map_eq_some_iff.1 named
    cases same
    exact ⟨List.mem_map_of_mem listed, (holds.configOf?_eq_some_iff.1 named).1⟩

include orderly

/-- The sets of the model that have a config are found under it, with their projects. -/
theorem mem_modelSetsWith_iff (holds : ws.Holds) (inside : ws.InModel p)
    (held : c ∈ ws.configsOf p) :
    (q, s) ∈ ws.modelSetsWith p (ws.config c).name ↔
      ws.InModel q ∧ s ∈ ws.setsOf q ∧ ws.Contains s c := by
  have owner := holds.project_of_mem_configsOf held
  have external : externalName (ws.project p).name (ws.config c).name = ws.externalNameOf c := by
    rw [externalNameOf, owner]
  have own : ws.InModel q → ((ws.project q).name = (ws.project p).name ↔ q = p) := by
    intro inside'
    refine ⟨rostered.eq_of_name orderly inside' inside, ?_⟩
    rintro rfl
    rfl
  simp only [modelSetsWith, external, List.mem_flatMap, List.mem_map, List.mem_filter,
    Bool.or_eq_true, Bool.and_eq_true, decide_eq_true_eq, Prod.mk.injEq]
  constructor
  · rintro ⟨entry, listed, _, ⟨within, has⟩, rfl, rfl⟩
    have inside' : ws.InModel entry.2 := List.mem_map_of_mem listed
    refine ⟨inside', within, ?_⟩
    rw [Contains, owner, rostered.project_of_mem_setsOf within, ← own inside']
    exact has
  · rintro ⟨inside', within, has⟩
    refine ⟨_, rostered.entry_of_inModel inside', s, ⟨within, ?_⟩, rfl, rfl⟩
    rw [Contains, owner, rostered.project_of_mem_setsOf within, ← own inside'] at has
    exact has

/-- Two sets of the model are told of in different words. -/
theorem eq_of_setReset {entry entry' : ProjectId × SetId}
    (inside : ws.InModel entry.1 ∧ entry.2 ∈ ws.setsOf entry.1)
    (inside' : ws.InModel entry'.1 ∧ entry'.2 ∈ ws.setsOf entry'.1)
    (same : ws.setReset entry = ws.setReset entry') : entry = entry' := by
  obtain ⟨q, s⟩ := entry
  obtain ⟨q', s'⟩ := entry'
  injection same with project set
  cases rostered.eq_of_name orderly inside.1 inside'.1 project
  cases List.inj_on_of_nodup_map (rostered.nodup_setNames q) inside.2 inside'.2 set
  rfl

include holds

/-- No set is told of twice. -/
theorem nodup_modelSetsWith (inside : ws.InModel p) (held : c ∈ ws.configsOf p) :
    ((ws.modelSetsWith p (ws.config c).name).map ws.setReset).Nodup := by
  have within : ∀ entry ∈ ws.modelSetsWith p (ws.config c).name,
      ws.InModel entry.1 ∧ entry.2 ∈ ws.setsOf entry.1 := by
    intro entry listed
    have has := (mem_modelSetsWith_iff rostered orderly holds inside held).1 listed
    exact ⟨has.1, has.2.1⟩
  have sets : (ws.modelSetsWith p (ws.config c).name).map Prod.snd
      = (ws.model.projects.map Prod.snd).flatMap fun q => (ws.setsOf q).filter fun s =>
          ws.hasMember s (externalName (ws.project p).name (ws.config c).name) ||
            ((ws.project q).name = (ws.project p).name && ws.hasMember s (ws.config c).name) := by
    simp [modelSetsWith, List.map_flatMap, List.flatMap_map, Function.comp_def]
  have once : (ws.modelSetsWith p (ws.config c).name).Nodup := by
    refine List.Nodup.of_map Prod.snd ?_
    rw [sets]
    refine rostered.nodup_flatMap orderly (fun s => (ws.set s).project)
      (fun q => (rostered.nodup_setsOf q).filter _) fun q s listed => ?_
    exact rostered.project_of_mem_setsOf (List.mem_of_mem_filter listed)
  refine once.map_on fun entry listed entry' listed' same => ?_
  exact eq_of_setReset rostered orderly (within entry listed) (within entry' listed') same

end Rostered

/-! ## What a reload tells -/

/-- A reload of a config of a project tells of the config and then of some sets of the model, each
of them once. -/
structure Announces (ws ws' : Workspace σ) (p : ProjectId) (c : ConfigId)
    (announced : List (ProjectId × SetId)) : Prop where
  told : ws'.model = ws.model.tell
    (.configReset (ws.project p).name (ws.config c).name :: announced.map ws.setReset)
  once : (announced.map ws.setReset).Nodup
  sets : ∀ q s, (q, s) ∈ announced ↔ ws.InModel q ∧ s ∈ ws.setsOf q ∧ ws.Contains s c
  /-- Forgotten is what is told of, and what was merged from the config at any time. -/
  merged : ∀ s, (ws'.set s).merged
    = if s ∈ announced.map Prod.snd ∨ s ∈ (ws.config c).dependents then none
      else (ws.set s).merged
  shown : ∀ q s m, ws.InModel q → s ∈ ws.setsOf q → (ws.set s).merged = some m →
    c ∈ m.members → (q, s) ∈ announced

variable [DocumentSource σ]

/-- **Announcements.**  A reload tells of the config that it finds, once, and of the sets of the
model that have the config as a member, of each of them once.  It forgets the merged views of these
sets and of all that were merged from the config at any time.  Of the latter those may not be told
of that do not have the config any more; a set whose merged view has the config is told of. -/
theorem announcements_reload [FiniteSource σ] (managed : Managed ws) {name : String}
    (done : ws.reload name = .ok ws') :
    ∃ p c announced, ws.findConfig? name = some (p, c) ∧ Announces ws ws' p c announced := by
  have rostered := managed.rostered
  have orderly := managed.reachable.orderly
  have holds := managed.reachable.freely.holds
  obtain ⟨p, c, found, rfl⟩ := eq_of_reload done
  obtain ⟨inside, held⟩ := inModel_of_findConfig? rostered orderly holds found
  refine ⟨p, c, ws.modelSetsWith p (ws.config c).name, found, {
    told := model_reloadInModel ws p c
    once := nodup_modelSetsWith rostered orderly holds inside held
    sets := fun q s => mem_modelSetsWith_iff rostered orderly holds inside held
    merged := fun s => ?_
    shown := fun q s m inside' within merged member => ?_ }⟩
  · rw [set_reloadInModel, apply_ite SetCell.merged]
    exact if_congr (List.mem_append.trans or_comm) rfl rfl
  · exact (mem_modelSetsWith_iff rostered orderly holds inside held).2
      ⟨inside', within, .of_merged managed.reachable.freely.traced merged member⟩

/-! ### A set that has dropped a config -/

/-- A set was merged from two configs, then it dropped the first and was merged again. -/
def lingering : Workspace DocumentStore :=
  let ws := (sharing.carryOut .openModel).carryOut (.addProject ⟨0⟩)
  let ws := ws.carryOut (.addSet ⟨0⟩ "all")
  let ws := ((ws.addMember ⟨0⟩ "a.xml").2.addMember ⟨0⟩ "b.xml").2
  let ws := (((members ⟨0⟩).run ws).2.removeMember ⟨0⟩ "a.xml").2
  ((members ⟨0⟩).run ws).2

theorem managed_sharing : Managed sharing := by
  have empty : Managed ({ source := {} } : Workspace DocumentStore) := .start _
  have used := (ManagementStep.useProject _ "demo" sharedReader {} {}).managed empty fun _ => .inl
  exact (ManagementStep.addConfigs _ _ _).managed (used.content (.documents _ _)) fun _ => .inl

theorem managed_lingering : Managed lingering := by
  have opened := managed_sharing.carryOut .openModel fun _ same => nomatch same
  have added := opened.carryOut (.addProject ⟨0⟩) fun _ same => by
    cases same
    decide
  have listed := added.carryOut (.addSet ⟨0⟩ "all") fun _ same => nomatch same
  have first := (listed.content (.addMember _ ⟨0⟩ "a.xml")).content (.addMember _ ⟨0⟩ "b.xml")
  have merged := first.content (.query (.members _ ⟨0⟩ (by decide +kernel)))
  have dropped := merged.content (.removeMember _ ⟨0⟩ "a.xml")
  exact dropped.content (.query (.members _ ⟨0⟩ (by decide +kernel)))

/-- The dropped config is reloaded, and the merged view of the set, which does not have it any more,
is forgotten without a word. -/
theorem reload_lingering : ∃ ws', lingering.reload "/demo/a.xml" = .ok ws' ∧
    ((lingering.set ⟨0⟩).merged.map MergedSet.members = some [⟨1⟩]) ∧
    lingering.InModel ⟨0⟩ ∧ ⟨0⟩ ∈ lingering.setsOf ⟨0⟩ ∧ (ws'.set ⟨0⟩).merged = none ∧
    ws'.model = lingering.model.tell [.configReset "demo" "a.xml"] := by
  have found : lingering.findConfig? "/demo/a.xml" = some (⟨0⟩, ⟨0⟩) := by decide +kernel
  have done : lingering.reload "/demo/a.xml" = .ok (lingering.reloadInModel ⟨0⟩ ⟨0⟩) := by
    have isOpen : lingering.model.isOpen = true := by decide +kernel
    rw [reload, isOpen, found]
    rfl
  obtain ⟨p, c, announced, found', announces⟩ := announcements_reload managed_lingering done
  cases found.symm.trans found'
  have dropped : ¬lingering.Contains ⟨0⟩ ⟨0⟩ := by decide +kernel
  have within : ∀ q s, lingering.InModel q → s ∈ lingering.setsOf q → s = ⟨0⟩ := by
    intro q s inside listed
    have only : ∀ q ∈ lingering.model.projects.map Prod.snd, ∀ s ∈ lingering.setsOf q, s = ⟨0⟩ := by
      decide +kernel
    exact only q inside s listed
  have silent : announced = [] := by
    refine List.eq_nil_iff_forall_not_mem.2 fun ⟨q, s⟩ listed => ?_
    obtain ⟨inside, listed, contains⟩ := (announces.sets q s).1 listed
    cases within q s inside listed
    exact dropped contains
  subst silent
  have names : (lingering.project ⟨0⟩).name = "demo" ∧ (lingering.config ⟨0⟩).name = "a.xml" := by
    decide +kernel
  refine ⟨_, done, by decide +kernel, by decide +kernel, by decide +kernel, ?_, ?_⟩
  · rw [announces.merged, if_pos (.inr (by decide +kernel))]
  · rw [announces.told, names.1, names.2]
    rfl

end Workspace

end BeanWiring
