/-
# Memberships of removed configs

When a config is removed, the sets of its project drop it by its plain name, and those that had it
so are merged anew without it.  Nothing is done about its external name, although sets are found
by that as well: a set that has the config by its external name is still found under the config,
and if it had been merged it goes on answering with what the removed config declares.

Main statements:

* `answersFrom_membersOf` : whatever a set answers with, one of its members answers with;
* `memberships_removeConfig` : which sets a config that is removed stays in, and what they answer
  with.
-/
import BeanWiring.Proofs.Workspace.Consistency
import BeanWiring.Proofs.Workspace.MemberNames

namespace BeanWiring

/-! ## Classes in a merged set -/

theorem ClassIndex.mem_beansOf_foldl_extend {b : Bean} {className : String}
    (classes : List String) (beans : String → List Bean) (index : ClassIndex)
    (listed : b ∈ (classes.foldl (fun index c => index.extend c (beans c)) index).beansOf
      className) : b ∈ index.beansOf className ∨ b ∈ beans className := by
  induction classes generalizing index with
  | nil => exact .inl listed
  | cons c rest ih =>
    rcases ih (index.extend c (beans c)) listed with before | new
    · rw [beansOf_extend] at before
      split at before
      · rename_i same
        subst same
        exact List.mem_append.1 before
      · exact .inl before
    · exact .inr new

/-- The beans of a class in a merged set are those of its members. -/
theorem MergedSet.mem_beansOf_ofMembers {C : Type} {settings : SetSettings}
    {members : List (C × ConfigTree)} {b : Bean} {className : String}
    (listed : b ∈ (ofMembers settings members).classIndex.beansOf className) :
    ∃ m ∈ members, b ∈ m.2.beansOfClass className := by
  induction members using List.reverseRecOn with
  | nil => cases listed
  | append_singleton members m ih =>
    rw [ofMembers_concat] at listed
    rcases ClassIndex.mem_beansOf_foldl_extend _ m.2.beansOfClass _ listed with before | new
    · obtain ⟨m', member, there⟩ := ih before
      exact ⟨m', List.mem_append_left _ member, there⟩
    · exact ⟨m, List.mem_append_right _ (List.mem_singleton_self m), new⟩

namespace Workspace

variable {σ : Type} [DocumentSource σ] {ws ws' : Workspace σ} {p : ProjectId} {name : String}
  {c : ConfigId} {set : SetId}

/-! ## Where answers come from -/

/-- What a set answers with, one of some configs answers with. -/
structure AnswersFrom (ws : Workspace σ) (set : SetId) (configs : List ConfigId) : Prop where
  beans : ∀ b ∈ ws.beans (.set set), ∃ c ∈ configs, b ∈ ws.beans (.config c)
  aliases : ∀ a ∈ ws.aliases (.set set), ∃ c ∈ configs, a ∈ ws.aliases (.config c)
  components : ∀ k ∈ ws.components (.set set), ∃ c ∈ configs, k ∈ ws.components (.config c)
  ofClass : ∀ className, ∀ b ∈ ((beansOfClass (.set set) className).run ws).1,
    ∃ c ∈ configs, b ∈ ((beansOfClass (.config c) className).run ws).1

section Finite

variable [FiniteSource σ]

theorem beansOfClass_config (wired : ws.Wired) (known : ws.HasConfig c) (className : String) :
    ((beansOfClass (.config c) className).run ws).1 = (ws.tree c).beansOfClass className :=
  answer_askTree wired known (answeredBy_flatMap fun entry => entry.classIndex.beansOf className)

/-- A set that is in step answers with nothing but what its members answer with. -/
theorem answersFrom_membersOf (steady : ws.Steady) (inStep : ws.InStep set) :
    AnswersFrom ws set (ws.membersOf set) := by
  have wired := steady.toWired
  have known : ∀ c ∈ ws.membersOf set, ws.HasConfig c := fun c => hasConfig_of_mem_membersOf steady
  have view := (inStep_iff steady.toGrounded).1 inStep
  have follows := followsPolicies_of_inStep steady inStep
  constructor
  · exact fun b listed => List.mem_flatMap.1 (follows.beans.mem_of_mem listed)
  · exact fun a listed => List.mem_flatMap.1 (follows.aliases.mem_of_mem listed)
  · intro k listed
    have listed : k ∈ ((readSet set).run ws).1.components := listed
    rw [view, viewOf, MergedSet.components_ofMembers, List.flatMap_map] at listed
    obtain ⟨c, member, there⟩ := List.mem_flatMap.1 listed
    exact ⟨c, member, components_config wired (known c member) ▸ there⟩
  · intro className b listed
    have listed : b ∈ ((readSet set).run ws).1.classIndex.beansOf className := listed
    rw [view] at listed
    obtain ⟨m, among, there⟩ := MergedSet.mem_beansOf_ofMembers listed
    obtain ⟨c, member, rfl⟩ := List.mem_map.1 among
    exact ⟨c, member, beansOfClass_config wired (known c member) className ▸ there⟩

end Finite

/-! ## Removed configs -/

/-- What becomes of the memberships of a config that is removed. -/
structure Departs (ws ws' : Workspace σ) (p : ProjectId) (name : String) (c : ConfigId) : Prop where
  had : ws.configOf? p name = some c
  gone : ws'.configOf? p name = none
  setsOf : ws'.setsOf p = ws.setsOf p
  /-- No set of the project has the config by its plain name. -/
  plain : ∀ set ∈ ws.setsOf p, ws'.hasMember set name = false
  /-- Those that had it by its external name still have it. -/
  setsWith : ws'.setsWith p name = (ws.setsOf p).filter fun set =>
    ws.hasMember set (externalName (ws.project p).name name)
  /-- A set goes on with the config if it was merged from it and did not drop it. -/
  stays : ∀ set ∈ ws.setsOf p, c ∈ ((members set).run ws').1 ↔
    ws.hasMember set name = false ∧ ∃ m, (ws.set set).merged = some m ∧ c ∈ m.members
  /-- Then it has the config by its external name, and answers as it did before. -/
  answersOn : ∀ set ∈ ws.setsOf p, c ∈ ((members set).run ws').1 →
    ws.hasMember set (externalName (ws.project p).name name) = true ∧
      ((readSet set).run ws').1 = ((readSet set).run ws).1
  /-- A set that was in step, or that dropped the config, answers with nothing but what its members
  answer with. -/
  answersFrom : ∀ set, ws.InStep set ∨ set ∈ ws.setsOf p ∧ ws.hasMember set name = true →
    AnswersFrom ws' set ((members set).run ws').1

section Released

variable (released : Releases ws ws' p [name])
include released

omit [DocumentSource σ]

theorem configOf?_of_released : ws'.configOf? p name = none := by
  have absent : ¬ws'.hasConfig p name = true := by
    rw [released.hasConfig]
    exact fun kept => kept.2 (List.mem_singleton_self name)
  rwa [hasConfig, Option.not_isSome_iff_eq_none] at absent

/-- The config is found in the sets that have it by its external name. -/
theorem setsWith_of_released : ws'.setsWith p name = (ws.setsOf p).filter fun set =>
    ws.hasMember set (externalName (ws.project p).name name) := by
  have projectName : (ws'.project p).name = (ws.project p).name := by
    rw [released.project, if_pos rfl]
    rfl
  rw [setsWith, released.setsOf, projectName]
  refine List.filter_congr fun set within => ?_
  rw [released.hasMember within (List.mem_singleton_self name), Bool.false_or, Bool.eq_iff_iff,
    released.hasMember_iff within, List.mem_singleton, and_iff_left (externalName_ne _ name)]

/-- The merged views are left that are not of a set that had the name as a member. -/
theorem merged_of_released (within : set ∈ ws.setsOf p) (m : MergedSet ConfigId) :
    (ws'.set set).merged = some m ↔
      ws.hasMember set name = false ∧ (ws.set set).merged = some m := by
  have had : (ws.set set).settings.members.any (· ∈ [name]) = ws.hasMember set name := by
    rw [hasMember, Bool.eq_iff_iff]
    simp
  rw [released.sets, if_pos within, SetCell.dropMembers, had]
  cases ws.hasMember set name with
  | true => simp
  | false => simp

/-- A set stays in step, and one that dropped the name is merged anew. -/
theorem inStep_of_released [DocumentSource σ] [FiniteSource σ] (steady : ws.Steady)
    (steady' : ws'.Steady)
    (inStep : ws.InStep set ∨ set ∈ ws.setsOf p ∧ ws.hasMember set name = true) :
    ws'.InStep set := by
  cases merged : (ws'.set set).merged with
  | none => exact inStep_of_unmerged merged
  | some m =>
    -- A set that is merged dropped nothing.
    have same : ws'.set set = ws.set set := by
      rw [released.sets] at merged ⊢
      split at merged
      · rw [if_pos ‹_›, SetCell.dropMembers_of_merged merged]
      · rw [if_neg ‹_›]
    rcases inStep with inStep | ⟨within, member⟩
    · refine (inStep_congr steady same fun c => ?_).2 inStep
      exact (released.foretells steady.toWired).tree steady.toWired steady'.toWired
    · obtain ⟨dropped, -⟩ := (merged_of_released released within m).1 merged
      cases member.symm.trans dropped

/-- No project holds the config any more. -/
theorem not_held_of_released (holds : ws.Holds) (holds' : ws'.Holds)
    (found : ws.configOf? p name = some c) (q : ProjectId) :
    ∀ entry ∈ (ws'.project q).configs, entry.2 ≠ c := by
  rintro entry listed rfl
  obtain ⟨named, project, -⟩ := holds.of_configOf? found
  obtain ⟨-, named', project'⟩ := holds'.own q entry listed
  rw [config_congr released.configs] at named' project'
  have same : q = p := project'.symm.trans project
  have sameName : entry.1 = name := named'.symm.trans named
  rw [same, released.project, if_pos rfl] at listed
  have kept := of_decide_eq_true (List.mem_filter.1 listed).2
  exact kept (List.mem_singleton.2 sameName)

end Released

omit [DocumentSource σ] in
/-- What a set was merged from it has by the external name, unless by the plain one. -/
theorem Named.hasMember_external (h : ws.Named) (holds : ws.Holds)
    (found : ws.configOf? p name = some c) {m : MergedSet ConfigId}
    (merged : (ws.set set).merged = some m) (among : c ∈ m.members)
    (dropped : ws.hasMember set name = false) :
    ws.hasMember set (externalName (ws.project p).name name) = true := by
  obtain ⟨named, project, -⟩ := holds.of_configOf? found
  obtain ⟨-, other, listed, names⟩ := h.merged set m merged c among
  have isMember : ws.hasMember set other = true := List.contains_iff_mem.2 listed
  rw [Names, named, project] at names
  rcases names with rfl | rfl
  · rw [dropped] at isMember
    cases isMember
  · exact isMember

variable [FiniteSource σ]

/-- A config that is held no more is a member of the sets that were merged from it, and of no
others. -/
theorem mem_membersOf_iff (grounded : ws.Grounded)
    (unheld : ∀ q, ∀ entry ∈ (ws.project q).configs, entry.2 ≠ c) :
    c ∈ ws.membersOf set ↔ ∃ m, (ws.set set).merged = some m ∧ c ∈ m.members := by
  cases merged : (ws.set set).merged with
  | some m =>
    rw [membersOf_of_merged merged]
    constructor
    · exact fun member => ⟨m, rfl, member⟩
    · rintro ⟨m', same, member⟩
      cases same
      exact member
  | none =>
    rw [membersOf_of_unmerged grounded merged]
    constructor
    · intro member
      obtain ⟨q, entry, listed, same⟩ := held_of_memberConfigs member
      exact absurd same (unheld q entry listed)
    · rintro ⟨m, none, -⟩
      cases none

/-- **Removed configs.**  After a config was removed, no set of its project has it by its plain
name, and exactly those are found under it that have it by its external name.  A set goes on with
the config if and only if it had been merged from it and did not drop it; it has it by its external
name then, and answers as before.  All that a set answers with, one of its members answers with, if
it was in step with them or dropped the config; so no other such set answers with what only the
removed config declares. -/
theorem memberships_removeConfig (reachable : FreelyReachable ws)
    (removed : (ws.removeConfig p name).1 = true) :
    ∃ c, Departs ws (ws.removeConfig p name).2 p name c := by
  have there : ws.hasConfig p name = true := by
    by_contra absent
    rw [removeConfig, if_neg absent] at removed
    cases removed
  obtain ⟨c, found⟩ := Option.isSome_iff_exists.1 there
  have released := releases_removeConfig there
  have reachable' : FreelyReachable (ws.removeConfig p name).2 :=
    reachable.management (.removeConfig ws p name)
  -- The config is not held any more, so sets that are merged anew are merged without it.
  have unheld := not_held_of_released released reachable.holds reachable'.holds found
  generalize (ws.removeConfig p name).2 = ws' at released reachable' unheld
  have steady' := reachable'.steady
  have stays : ∀ set ∈ ws.setsOf p, c ∈ ((members set).run ws').1 ↔
      ws.hasMember set name = false ∧ ∃ m, (ws.set set).merged = some m ∧ c ∈ m.members := by
    intro set within
    refine (mem_membersOf_iff steady'.toGrounded unheld).trans ?_
    simp only [merged_of_released released within, and_assoc, exists_and_left]
  refine ⟨c, {
    had := found
    gone := configOf?_of_released released
    setsOf := released.setsOf
    plain := fun set within => released.hasMember within (List.mem_singleton_self name)
    setsWith := setsWith_of_released released
    stays
    answersOn := fun set within member => ?_
    answersFrom := fun set inStep => answersFrom_membersOf steady'
      (inStep_of_released released reachable.steady steady' inStep) }⟩
  obtain ⟨dropped, m, merged, among⟩ := (stays set within).1 member
  have merged' := (merged_of_released released within m).2 ⟨dropped, merged⟩
  exact ⟨reachable.named.hasMember_external reachable.holds found merged among dropped,
    by rw [readSet_of_merged merged', readSet_of_merged merged]⟩

/-! ### A config that is left in a set -/

/-- A set has one of the two configs by its external name, and was asked for its members. -/
def outlasting : Workspace DocumentStore :=
  match sharing.addSet ⟨0⟩ "all" with
  | .ok (id, ws) => ((members id).run (ws.addMember id "/demo/a.xml").2).2
  | .error _ => sharing

theorem reachable_outlasting : Reachable outlasting := by
  have added := reachable_sharing.management
    (.addSet (show addSet _ ⟨0⟩ "all" = .ok (⟨0⟩, _) from rfl))
  have member := added.content (.addMember _ ⟨0⟩ "/demo/a.xml")
  exact member.content (.query (.members _ ⟨0⟩ (by decide)))

/-- The config is removed, and the set is still found under it and answers with its bean. -/
theorem beans_removeConfig_outlasting :
    let ws' := (outlasting.removeConfig ⟨0⟩ "a.xml").2
    (outlasting.removeConfig ⟨0⟩ "a.xml").1 = true ∧ ws'.configOf? ⟨0⟩ "a.xml" = none ∧
      ws'.setsWith ⟨0⟩ "a.xml" = [⟨0⟩] ∧ ⟨0⟩ ∈ ((members ⟨0⟩).run ws').1 ∧
      (ws'.beans (.set ⟨0⟩)).map Bean.resource = ["a.xml"] := by
  intro ws'
  have removed : (outlasting.removeConfig ⟨0⟩ "a.xml").1 = true := by decide +kernel
  obtain ⟨c, departs⟩ := memberships_removeConfig reachable_outlasting.freely removed
  have first : outlasting.configOf? ⟨0⟩ "a.xml" = some ⟨0⟩ := by decide +kernel
  cases departs.had.symm.trans first
  have within : (⟨0⟩ : SetId) ∈ outlasting.setsOf ⟨0⟩ := by decide +kernel
  have merged : (outlasting.set ⟨0⟩).merged.map MergedSet.members = some [⟨0⟩] := by
    decide +kernel
  obtain ⟨m, first, only⟩ := Option.map_eq_some_iff.1 merged
  have member := (departs.stays ⟨0⟩ within).2
    ⟨by decide +kernel, m, first, only ▸ List.mem_singleton_self _⟩
  have before : ws'.beans (.set ⟨0⟩) = outlasting.beans (.set ⟨0⟩) :=
    congrArg MergedSet.beans (departs.answersOn ⟨0⟩ within member).2
  refine ⟨removed, departs.gone, departs.setsWith.trans (by decide +kernel), member, ?_⟩
  rw [before]
  decide +kernel

end Workspace

end BeanWiring
