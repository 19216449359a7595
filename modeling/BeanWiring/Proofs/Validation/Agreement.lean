/-
# What a pass resolves

The registry that a pass ends with holds everything that the members of its set declare, in
order: the beans that the first pass visits inside other beans add no names.  Names that are
declared on their own resolve in it as they do in the config or in the merged set.  The names
that beans list for themselves resolve in the registry alone.

Main statements:

* `registry_of_setPass` : the registry of a pass, member by member;
* `registry_comparesTo` : how names resolve in it, next to a config on its own and to a set.
-/
import BeanWiring.Proofs.Config.TopLevel
import BeanWiring.Proofs.Lookup.Memo
import BeanWiring.Proofs.Lookup.Consistency
import BeanWiring.Proofs.Lookup.Registration
import BeanWiring.Proofs.Validation.Passes
import BeanWiring.Proofs.Validation.References

namespace BeanWiring

/-- What a member of a set declares, for the config that is validated. -/
def SetMember.context (config : Context) : SetMember → Context
  | .self => config
  | .other member => member

/-! ## Visited beans -/

namespace Validator

/-- The beans that the first pass visits are visited bean by bean. -/
theorem checkedBeans_eq_flatMap (v : Validator) (bs : List Bean) :
    v.checkedBeans bs = bs.flatMap fun b => v.checkedIn b.nest := by
  rw [checkedBeans]
  induction bs with
  | nil => rfl
  | cons b bs ih => rw [List.map_cons, checkedInAll, ih, List.flatMap_cons]

/-- In a bean it visits the bean, and then its inner beans one by one unless it is skipped. -/
theorem checkedIn_nest (v : Validator) (b : Bean) :
    v.checkedIn b.nest
      = b :: if v.skips b then [] else b.inner.flatMap fun i => v.checkedIn i.nest := by
  rw [Bean.nest_eq, checkedIn, ← checkedBeans_eq_flatMap, checkedBeans]

/-- It visits no other beans than those nested in the bean. -/
theorem mem_of_mem_checkedIn {v : Validator} {b x : Bean} (h : x ∈ v.checkedIn b.nest) :
    x = b ∨ x ∈ b.innerDeep := by
  induction b using Bean.inner_induction with
  | step b ih =>
    rw [checkedIn_nest, List.mem_cons] at h
    rcases h with rfl | below
    · exact .inl rfl
    · split at below
      · cases below
      · obtain ⟨i, direct, visited⟩ := List.mem_flatMap.1 below
        exact .inr (Bean.mem_innerDeep_iff.2 ⟨i, direct, ih i direct visited⟩)

/-- Between one bean and the next the first pass visits beans nested in the first only. -/
theorem checkedBeans_cons (v : Validator) (b : Bean) (bs : List Bean) :
    ∃ below, v.checkedBeans (b :: bs) = b :: (below ++ v.checkedBeans bs) ∧
      ∀ x ∈ below, x.isInner = true := by
  refine ⟨if v.skips b then [] else b.inner.flatMap fun i => v.checkedIn i.nest, ?_, ?_⟩
  · rw [checkedBeans_eq_flatMap, List.flatMap_cons, checkedIn_nest, checkedBeans_eq_flatMap]
    rfl
  · intro x hx
    split at hx
    · cases hx
    · obtain ⟨i, direct, visited⟩ := List.mem_flatMap.1 hx
      have nested : x ∈ b.innerDeep :=
        Bean.mem_innerDeep_iff.2 ⟨i, direct, mem_of_mem_checkedIn visited⟩
      exact Bean.isInner_of_mem_innerDeep nested

end Validator

/-! ## Rolls -/

namespace Roll

variable {v : Validator} {config : Context} {r : Roll}

/-- Inner beans leave a roll as it is. -/
theorem foldl_enlist_of_isInner {bs : List Bean} (h : ∀ b ∈ bs, b.isInner = true) :
    bs.foldl enlist r = r := by
  induction bs with
  | nil => rfl
  | cons b bs ih =>
    have first : r.enlist b = r := if_pos (h b List.mem_cons_self)
    rw [List.foldl_cons, first]
    exact ih fun c hc => h c (List.mem_cons_of_mem b hc)

/-- Of the beans that the first pass visits, only those that are not nested count. -/
theorem foldl_enlist_checkedBeans (v : Validator) (r : Roll) (bs : List Bean) :
    (v.checkedBeans bs).foldl enlist r = bs.foldl enlist r := by
  induction bs generalizing r with
  | nil => rfl
  | cons b bs ih =>
    obtain ⟨below, visited, nested⟩ := v.checkedBeans_cons b bs
    rw [visited, List.foldl_cons, List.foldl_append, foldl_enlist_of_isInner nested, ih,
      List.foldl_cons]

/-- Enlisting aliases registers them. -/
theorem registry_foldl_enlistAlias (aliases : List BeanAlias) :
    (aliases.foldl enlistAlias r).registry
      = aliases.foldl (fun registry a => registry.orUnchanged (registry.registerAlias a))
          r.registry := by
  induction aliases generalizing r with
  | nil => rfl
  | cons a aliases ih => rw [List.foldl_cons, ih, List.foldl_cons]; rfl

theorem registry_enlistName (r : Roll) (b : Bean) :
    (r.enlistName b).registry = r.registry.orUnchanged (r.registry.registerBean b) := by
  unfold enlistName
  cases r.registry.registerBean b <;> rfl

/-- Enlisting beans that are not nested registers them with their aliases. -/
theorem registry_foldl_enlist {bs : List Bean} (h : ∀ b ∈ bs, b.isInner = false) :
    (bs.foldl enlist r).registry = bs.foldl Registry.registerWithAliases r.registry := by
  induction bs generalizing r with
  | nil => rfl
  | cons b bs ih =>
    have first : (r.enlist b).registry = r.registry.registerWithAliases b := by
      rw [enlist, h b List.mem_cons_self, if_neg Bool.false_ne_true,
        registry_foldl_enlistAlias, registry_enlistName]
      rfl
    rw [List.foldl_cons, ih fun c hc => h c (List.mem_cons_of_mem b hc), first, List.foldl_cons]

/-- Enlisting a config registers it. -/
theorem registry_enlistConfig (named : ∀ b ∈ config.beans, b.isInner = false) :
    (r.enlistConfig v config).registry = r.registry.registerAll config := by
  show config.components.foldl Registry.registerComponent
    (r.enlistAll (v.checkedBeans config.beans) config.aliases).registry = _
  rw [enlistAll, registry_foldl_enlistAlias, foldl_enlist_checkedBeans,
    registry_foldl_enlist named]
  rfl

/-- To enlist a bean is to register it, whether or not it is nested. -/
theorem reached_enlist (reached : r.registry.Reached) (b : Bean) :
    (r.enlist b).registry.Reached := by
  unfold enlist
  split
  · exact reached
  · rw [registry_foldl_enlistAlias, registry_enlistName]
    exact reached.registerWithAliases b

theorem reached_enlistConfig (reached : r.registry.Reached) :
    (r.enlistConfig v config).registry.Reached := by
  have beans : ((v.checkedBeans config.beans).foldl enlist r).registry.Reached := by
    induction v.checkedBeans config.beans generalizing r with
    | nil => exact reached
    | cons b rest ih => exact ih (reached_enlist reached b)
  have all : (r.enlistAll (v.checkedBeans config.beans) config.aliases).registry.Reached := by
    rw [enlistAll, registry_foldl_enlistAlias]
    exact beans.foldl_registerAlias config.aliases
  exact all.foldl_registerComponent config.components

theorem reached_enlistMembers (reached : r.registry.Reached) (met : Bool)
    (members : List SetMember) : (enlistMembers v config met r members).2.registry.Reached := by
  induction members generalizing met r with
  | nil => exact reached
  | cons member rest ih =>
    cases member with
    | self => exact ih (reached_enlistConfig reached) true
    | other member =>
      exact ih (r := { r with registry := r.registry.registerAll member })
        (reached.registerAll member) met

/-- Enlisting the members of a set registers them one after the other. -/
theorem enlistMembers_eq (named : ∀ b ∈ config.beans, b.isInner = false) (met : Bool)
    (members : List SetMember) :
    ((enlistMembers v config met r members).1 = true ↔ met = true ∨ .self ∈ members) ∧
      (enlistMembers v config met r members).2.registry
        = (members.map (·.context config)).foldl Registry.registerAll r.registry := by
  -- The roll is general: each member is enlisted in what those before it left.
  induction members generalizing met r with
  | nil => exact ⟨by simp [enlistMembers], rfl⟩
  | cons member members ih =>
    cases member with
    | self =>
      obtain ⟨found, registered⟩ := ih true (r := r.enlistConfig v config)
      refine ⟨?_, ?_⟩
      · rw [enlistMembers, found]
        simp
      · rw [enlistMembers, registered, registry_enlistConfig named]
        rfl
    | other member =>
      obtain ⟨found, registered⟩ :=
        ih met (r := { r with registry := r.registry.registerAll member })
      refine ⟨?_, ?_⟩
      · rw [enlistMembers, found]
        simp
      · rw [enlistMembers, registered]
        rfl

end Roll

namespace Validator

variable {v : Validator} {config : Context} {interrupt : Interrupt} {run run' : Run}

/-! ## Passes -/

/-- A pass ends with everything enlisted. -/
theorem roll_of_pass {set : Option SetView} (done : v.pass interrupt config set run = .ok run') :
    run'.roll = v.finalRoll config set :=
  (pass_ok (by decide) (fun set refused => performs_referenceTasks v set refused config) done).1

theorem registry_of_pass {set : Option SetView}
    (done : v.pass interrupt config set run = .ok run') :
    run'.registry = (v.finalRoll config set).registry :=
  congrArg Roll.registry (roll_of_pass done)

theorem unregistered_of_pass {set : Option SetView}
    (done : v.pass interrupt config set run = .ok run') :
    run'.unregistered = (v.finalRoll config set).refused :=
  congrArg Roll.refused (roll_of_pass done)

/-- A pass over a config on its own ends with the config registered. -/
theorem registry_of_ownPass (named : ∀ b ∈ config.beans, b.isInner = false)
    (done : v.pass interrupt config none run = .ok run') :
    run'.registry = (Registry.forConfig config.name).registerAll config := by
  rw [registry_of_pass done, finalRoll, Roll.registry_enlistConfig named]

/-- A pass within a set that has the config as a member ends with all members registered. -/
theorem registry_of_setPass (named : ∀ b ∈ config.beans, b.isInner = false) {set : SetView}
    (member : .self ∈ set.members) (done : v.pass interrupt config (some set) run = .ok run') :
    run'.registry
      = (set.members.map (·.context config)).foldl Registry.registerAll (setRegistry set) := by
  obtain ⟨found, registered⟩ := Roll.enlistMembers_eq (v := v)
    (r := { registry := setRegistry set }) named false set.members
  rw [registry_of_pass done, finalRoll, if_pos (found.2 (.inr member)), registered]

/-- Whatever a pass enlists, registrations have filled the registry that it ends with. -/
theorem reached_of_pass {set : Option SetView} (done : v.pass interrupt config set run = .ok run') :
    run'.registry.Reached := by
  rw [registry_of_pass done]
  cases set with
  | none => exact Roll.reached_enlistConfig (.empty ..)
  | some set =>
    have members : (Roll.enlistMembers v config false { registry := setRegistry set }
        set.members).2.registry.Reached :=
      Roll.reached_enlistMembers (.empty ..) false set.members
    rw [finalRoll]
    split
    · exact members
    · exact Roll.reached_enlistConfig members

/-! ### Parts of passes -/

/-- Validating the declarations of a config registers the config. -/
theorem registry_of_declarationPass (named : ∀ b ∈ config.beans, b.isInner = false)
    {set : Option String} (done : v.declarationPass interrupt set config run = .ok run') :
    run'.registry = run.registry.registerAll config := by
  have unused : "UNDEFINED_REFERENCED_BEAN" ∉ declarationCodes := by decide
  have enlisted := congrArg Roll.registry (declarationPass_ok unused done).1
  exact enlisted.trans (Roll.registry_enlistConfig named)

/-- However far the second part of a pass gets, it leaves the registry as it is. -/
theorem registry_of_referenceTasks {set : Option String} {refused : List BeanId}
    {tasks : List (Check Unit)} (among : tasks ⊆ v.referenceTasks set refused config) :
    (lastState (perform interrupt run tasks)).registry = run.registry := by
  -- What the tasks report does not matter here, so no diagnostic is of the kind.
  have quiet : ∀ task ∈ tasks, Check.Quiet (fun _ => False) task := fun task there =>
    (Check.closedLookups_quiet fun _ => False).referenceTasks v set refused
      (fun _ _ => ⟨trivial, fun _ _ => trivial⟩) (fun _ _ _ _ _ => id) (fun _ _ _ => id) task
      (among there)
  clear among
  induction tasks generalizing run with
  | nil => rfl
  | cons task tasks ih =>
    rw [perform]
    split
    · rfl
    · have first := congrArg Roll.registry
        (quiet task List.mem_cons_self { run with polls := run.polls + 1 }).1
      exact (ih fun t ht => quiet t (List.mem_cons_of_mem task ht)).trans first

/-! ## Next to configs and sets -/

/-- A registry with everything that a config declares, next to the config. -/
theorem comparesTo_config (t : ConfigTree) :
    Registry.ComparesTo false ((Registry.forConfig t.name).registerAll t.toContext).toContext
      t.toContext [t.toContext] := by
  show Registry.ComparesTo (Registry.forConfig t.name).allowAliasOverriding
    ([t.toContext].foldl Registry.registerAll (.forConfig t.name)).toContext _ _
  -- A look-up in the config finds the first entry, which is the one that a registry keeps
  -- where nothing may be replaced.
  refine Registry.comparesTo_of_tables rfl rfl rfl ?_ ?_ ?_
  · intro n
    rw [List.flatMap_singleton]
    exact Keyed.kept_false.symm
  · intro n
    rw [List.flatMap_singleton]
    exact Keyed.kept_false.symm
  · rw [List.flatMap_singleton]

/-- A registry with everything that the members of a set declare, next to the merged set. -/
theorem comparesTo_set {C : Type} (set : SetView) (members : List (C × ConfigTree)) :
    Registry.ComparesTo set.settings.allowAliasOverriding
      ((members.map (·.2.toContext)).foldl Registry.registerAll (setRegistry set)).toContext
      ((MergedSet.ofMembers set.settings members).toContext set.name)
      (members.map (·.2.toContext)) := by
  refine Registry.comparesTo_of_tables (r := setRegistry set) rfl rfl rfl ?_ ?_ ?_
  · intro n
    show Keyed.get? Bean.name n (MergedSet.ofMembers set.settings members).beans = _
    rw [MergedSet.beans_ofMembers, Keyed.get?_foldl_addEntry, List.flatMap_map]
    rfl
  · intro n
    show Keyed.get? BeanAlias.name n (MergedSet.ofMembers set.settings members).aliases = _
    rw [MergedSet.aliases_ofMembers, Keyed.get?_foldl_addEntry, List.flatMap_map]
    rfl
  · show (MergedSet.ofMembers set.settings members).components = _
    rw [MergedSet.components_ofMembers, List.flatMap_map]
    rfl

/-- **Names in a registry.**  Whatever a config declares, a registry with all of it compares to
the config, and it is the one that a pass over the config on its own ends with.  The registry
that a pass within a set ends with compares to the merged set. -/
theorem registry_comparesTo (t : ConfigTree) :
    Registry.ComparesTo false ((Registry.forConfig t.name).registerAll t.toContext).toContext
      t.toContext [t.toContext] ∧
    ∀ (v : Validator), t.AreTopLevel →
      (∀ (interrupt : Interrupt) (run run' : Run),
        v.pass interrupt t.toContext none run = .ok run' →
          run'.registry = (Registry.forConfig t.name).registerAll t.toContext) ∧
      ∀ (set : SetView) (C : Type) (members : List (C × ConfigTree)), .self ∈ set.members →
        set.members.map (·.context t.toContext) = members.map (·.2.toContext) →
        ∀ run : Run,
          (∃ run', v.pass (fun _ _ => false) t.toContext (some set) run = .ok run') ∧
          ∀ (interrupt : Interrupt) (run' : Run),
            v.pass interrupt t.toContext (some set) run = .ok run' →
              Registry.ComparesTo set.settings.allowAliasOverriding run'.registry.toContext
                ((MergedSet.ofMembers set.settings members).toContext set.name)
                (members.map (·.2.toContext)) := by
  refine ⟨comparesTo_config t, fun v topLevel => ?_⟩
  have named : ∀ b ∈ t.toContext.beans, b.isInner = false :=
    fun b hb => (topLevel.beans b hb).isInner
  refine ⟨fun _ _ _ done => registry_of_ownPass named done, ?_⟩
  intro set C members member views run
  refine ⟨pass_completes v t.toContext (some set) run, ?_⟩
  intro interrupt run' done
  rw [registry_of_setPass named member done, views]
  exact comparesTo_set set members

/-! ### A bean with two names -/

/-- A config with a bean `a` that lists `b` as another name of its own. -/
def twoNames : ConfigTree :=
  ⟨"beans.xml", { beans := [.named "beans.xml"
    ⟨"a", ["b"], { className := some "Foo", location := .atLine "beans.xml" 1 }⟩] }⟩

/-- The beans of the config. -/
theorem areTopLevel_twoNames : twoNames.AreTopLevel := by
  intro node there
  cases List.mem_singleton.1 there
  refine ⟨?_, List.forall_mem_nil _⟩
  intro b hb
  exact ⟨_, _, List.mem_singleton.1 hb⟩

/-- Registries know the bean by both names, the config and a set with it do not. -/
theorem resolve?_twoNames :
    (∃ b, ((Registry.forConfig "beans.xml").registerAll twoNames.toContext).toContext.resolve? "b"
        = some b ∧ b.name = "a") ∧
      twoNames.toContext.resolve? "b" = none ∧
      ∃ run', ({} : Validator).pass (fun _ _ => false) twoNames.toContext
          (some ⟨"all", {}, [.self]⟩) {} = .ok run' ∧
        (∃ b, run'.registry.toContext.resolve? "b" = some b ∧ b.name = "a") ∧
        ((MergedSet.ofMembers {} [((), twoNames)]).toContext "all").resolve? "b" = none := by
  obtain ⟨alone, within⟩ := registry_comparesTo twoNames
  obtain ⟨⟨run', done⟩, compares⟩ := (within {} areTopLevel_twoNames).2
    ⟨"all", {}, [.self]⟩ Unit [((), twoNames)] (List.mem_singleton_self _) rfl {}
  obtain ⟨⟨b, found, d, there, -, same⟩, none⟩ := alone.listed _
    (List.mem_singleton_self _) "b" (List.mem_singleton_self _) (by decide) (by decide) (by decide)
  obtain ⟨⟨b', found', d', there', -, same'⟩, none'⟩ := (compares _ run' done).listed _
    (List.mem_singleton_self _) "b" (List.mem_singleton_self _) (by decide) (by decide) (by decide)
  cases List.mem_singleton.1 there
  cases List.mem_singleton.1 there'
  exact ⟨⟨b, found, same.symm⟩, none, run', done, ⟨b', found', same'.symm⟩, none'⟩

end Validator

end BeanWiring
