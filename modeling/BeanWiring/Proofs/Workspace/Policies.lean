/-
# Policies

What a config set makes of the beans and aliases of its members, from what the members and the
set answer when they are asked.  The policies say which of several beans of a name the set has;
they never say in which place it has one.  A config that is asked alone has the first bean of a
name, so a set of this config alone may have another.

A set follows its policies over the trees that it was merged from.  Where it was left
behind, these are not the trees that its members have now, and it can list what no member lists.

Main statements:

* `followsPolicies_of_trees` : a set follows its policies over the trees that it was merged from;
* `set_followsPolicies` : when it follows them over what its members answer;
* `onlyMember_find` : how a set and its only member agree.
-/
import BeanWiring.Proofs.Config.Merging
import BeanWiring.Proofs.Workspace.Answers
import BeanWiring.Proofs.Workspace.Views
import BeanWiring.Proofs.Workspace.WithinSets

namespace BeanWiring.Workspace

variable {σ : Type} [DocumentSource σ]

/-! ## Questions to either -/

/-- The beans of a config or of a config set, when it is asked. -/
def beans (ws : Workspace σ) (id : ContextId) : List Bean :=
  ((ask id fun ctx => (ctx.beans, .everything)).run ws).1

/-- Its bean of a name. -/
def bean? (ws : Workspace σ) (id : ContextId) (name : String) : Option Bean :=
  ((ask id fun ctx => (ctx.bean? name, .bean name)).run ws).1

/-- Its aliases. -/
def aliases (ws : Workspace σ) (id : ContextId) : List BeanAlias :=
  ((ask id fun ctx => (ctx.aliases, .everything)).run ws).1

/-- Its alias of a name. -/
def aliasOf? (ws : Workspace σ) (id : ContextId) (name : String) : Option BeanAlias :=
  ((ask id fun ctx => (ctx.aliasOf? name, .aliasing name)).run ws).1

variable [FiniteSource σ] {ws : Workspace σ} {set : SetId} {c : ConfigId}

/-! ### To a config -/

section Config

variable (wired : ws.Wired) (known : ws.HasConfig c)

include wired known

theorem beans_config : ws.beans (.config c) = (ws.tree c).beans :=
  answer_askTree wired known (answeredBy_flatMap Contents.beans)

theorem aliases_config : ws.aliases (.config c) = (ws.tree c).aliases :=
  answer_askTree wired known (answeredBy_flatMap Contents.aliases)

/-- A config has the first of its beans of a name. -/
theorem bean?_config (name : String) : ws.bean? (.config c) name
    = Keyed.kept false Bean.name name (ws.beans (.config c)) := by
  have first : ws.bean? (.config c) name = (ws.tree c).toContext.bean? name :=
    answer_askTree wired known (answeredBy_bean? name)
  rw [first, Keyed.kept_false, beans_config wired known]
  rfl

/-- And the first of its aliases of a name. -/
theorem aliasOf?_config (name : String) : ws.aliasOf? (.config c) name
    = Keyed.kept false BeanAlias.name name (ws.aliases (.config c)) := by
  have first : ws.aliasOf? (.config c) name = (ws.tree c).toContext.aliasOf? name :=
    answer_askTree wired known (answeredBy_aliasOf? name)
  rw [first, Keyed.kept_false, aliases_config wired known]
  rfl

end Config

/-! ### To a set -/

/-- What a set answers about beans and aliases follows its policies over some lists of them. -/
structure FollowsPolicies (ws : Workspace σ) (set : SetId) (beans : List Bean)
    (aliases : List BeanAlias) : Prop where
  beans : Keyed.FollowsPolicy (ws.set set).settings.allowBeanOverriding Bean.name beans
    (ws.beans (.set set)) (ws.bean? (.set set))
  aliases : Keyed.FollowsPolicy (ws.set set).settings.allowAliasOverriding BeanAlias.name aliases
    (ws.aliases (.set set)) (ws.aliasOf? (.set set))

omit [FiniteSource σ] in
/-- A set follows its policies over the trees that it was merged from. -/
theorem followsPolicies_of_trees {trees : List (ConfigId × ConfigTree)}
    (view : ((readSet set).run ws).1 = .ofMembers (ws.set set).settings trees) :
    FollowsPolicies ws set (trees.flatMap fun t => t.2.beans)
      (trees.flatMap fun t => t.2.aliases) := by
  have beans : ws.beans (.set set) = ((readSet set).run ws).1.beans := rfl
  have bean? : ws.bean? (.set set) = ((readSet set).run ws).1.bean? := rfl
  have aliases : ws.aliases (.set set) = ((readSet set).run ws).1.aliases := rfl
  have aliasOf? : ws.aliasOf? (.set set) = ((readSet set).run ws).1.aliasOf? := rfl
  constructor
  · rw [beans, bean?, view]
    exact MergedSet.followsPolicy_beans _ trees
  · rw [aliases, aliasOf?, view]
    exact MergedSet.followsPolicy_aliases _ trees

/-- What the members of a set list is what their trees list. -/
theorem flatMap_membersOf (steady : ws.Steady) (set : SetId) :
    ((ws.membersOf set).flatMap fun c => ws.beans (.config c))
        = ((ws.membersOf set).map fun c => (c, ws.tree c)).flatMap (fun t => t.2.beans) ∧
      ((ws.membersOf set).flatMap fun c => ws.aliases (.config c))
        = ((ws.membersOf set).map fun c => (c, ws.tree c)).flatMap fun t => t.2.aliases := by
  have known : ∀ c ∈ ws.membersOf set, ws.HasConfig c := fun c => hasConfig_of_mem_membersOf steady
  rw [List.flatMap_map, List.flatMap_map]
  exact ⟨List.flatMap_congr fun c member => beans_config steady.toWired (known c member),
    List.flatMap_congr fun c member => aliases_config steady.toWired (known c member)⟩

/-- A set that is in step follows its policies over what its members answer. -/
theorem followsPolicies_of_inStep (steady : ws.Steady) (inStep : ws.InStep set) :
    FollowsPolicies ws set ((ws.membersOf set).flatMap fun c => ws.beans (.config c))
      ((ws.membersOf set).flatMap fun c => ws.aliases (.config c)) := by
  obtain ⟨beans, aliases⟩ := flatMap_membersOf steady set
  rw [beans, aliases]
  exact followsPolicies_of_trees ((inStep_iff steady.toGrounded).1 inStep)

/-- In general it does so exactly if it lists what the trees of its members give it now. -/
theorem followsPolicies_iff (steady : ws.Steady) (set : SetId) :
    FollowsPolicies ws set ((ws.membersOf set).flatMap fun c => ws.beans (.config c))
        ((ws.membersOf set).flatMap fun c => ws.aliases (.config c)) ↔
      ws.beans (.set set) = (ws.viewOf set (ws.membersOf set)).beans ∧
        ws.aliases (.set set) = (ws.viewOf set (ws.membersOf set)).aliases := by
  obtain ⟨beans, aliases⟩ := flatMap_membersOf steady set
  have ofBeans := MergedSet.followsPolicy_beans (ws.set set).settings
    ((ws.membersOf set).map fun c => (c, ws.tree c))
  have ofAliases := MergedSet.followsPolicy_aliases (ws.set set).settings
    ((ws.membersOf set).map fun c => (c, ws.tree c))
  rw [beans, aliases]
  constructor
  · exact fun follows => ⟨follows.beans.table_eq ofBeans, follows.aliases.table_eq ofAliases⟩
  · rintro ⟨sameBeans, sameAliases⟩
    -- A bean is looked up among those that are listed.
    have bean? : ws.bean? (.set set) = (ws.viewOf set (ws.membersOf set)).bean? :=
      congrArg (fun beans name => Keyed.get? Bean.name name beans) sameBeans
    have aliasOf? : ws.aliasOf? (.set set) = (ws.viewOf set (ws.membersOf set)).aliasOf? :=
      congrArg (fun aliases name => Keyed.get? BeanAlias.name name aliases) sameAliases
    constructor
    · rw [sameBeans, bean?]
      exact ofBeans
    · rw [sameAliases, aliasOf?]
      exact ofAliases

/-- Merging a set changes no answer of a config. -/
theorem answersAlike_readSet (steady : ws.Steady) (set : SetId) (known : ws.HasConfig c) :
    AnswersAlike ws c ((readSet set).run ws).2 c := by
  have same := looksSame_readSet steady set
  exact answersAlike_of_tree steady.toWired known same.steady.toWired (same.hasConfig c known)
    (same.trees c known)

/-- **Policies of sets.**  A set lists one bean of each name that the beans of its members have, one
member after the other, in the order in which the names come first: the last one of the name where
beans may override each other, and the first one otherwise.  This is also the bean that it has
under the name.  Its aliases are those of the members in the same way, as aliases may override each
other.  Whatever was done before, this holds:

* over the trees that the set was merged from, one of each member;
* over what its members answer now, if the set is in step with them;
* over what its members answer now, in general, exactly if the set lists what the trees give it
  that its members have now.

And no config answers otherwise because a set was merged. -/
theorem set_followsPolicies (reachable : FreelyReachable ws) (set : SetId) :
    let asked := ((members set).run ws).1
    let Follows := FollowsPolicies ws set (asked.flatMap fun c => ws.beans (.config c))
      (asked.flatMap fun c => ws.aliases (.config c))
    (∃ trees : List (ConfigId × ConfigTree), trees.map Prod.fst = asked ∧
      FollowsPolicies ws set (trees.flatMap fun t => t.2.beans)
        (trees.flatMap fun t => t.2.aliases)) ∧
    (ws.InStep set → Follows) ∧
    (Follows ↔ ws.beans (.set set) = (ws.viewOf set asked).beans ∧
      ws.aliases (.set set) = (ws.viewOf set asked).aliases) ∧
    ∀ c, ws.HasConfig c → AnswersAlike ws c ((readSet set).run ws).2 c := by
  have steady := reachable.steady
  obtain ⟨trees, ofMembers, -, view⟩ := steady.exists_trees set
  exact ⟨⟨trees, ofMembers, followsPolicies_of_trees view⟩,
    fun inStep => followsPolicies_of_inStep steady inStep, followsPolicies_iff steady set,
    fun c known => answersAlike_readSet steady set known⟩

/-- The two sets of one pair of configs have the bean that both declare from one each. -/
theorem winners_contested :
    (contested.bean? (.set ⟨0⟩) "shared").map Bean.resource = some "a.xml" ∧
      (contested.bean? (.set ⟨1⟩) "shared").map Bean.resource = some "b.xml" ∧
      (contested.beans (.set ⟨1⟩)).map Bean.name = ["shared"] := by
  obtain ⟨-, follows, -⟩ := set_followsPolicies reachable_contested.freely ⟨0⟩
  obtain ⟨-, follows', -⟩ := set_followsPolicies reachable_contested.freely ⟨1⟩
  have strict := follows (reachable_contested.inStep ⟨0⟩)
  have lenient := follows' (reachable_contested.inStep ⟨1⟩)
  rw [strict.beans.finds, lenient.beans.finds, lenient.beans.keys]
  decide +kernel

/-- A set that was left behind lists a bean that its only member does not list any more. -/
theorem not_followsPolicies_orphaned :
    let ws := orphaned.reloadConfig ⟨1⟩
    ((members ⟨0⟩).run ws).1 = [⟨0⟩] ∧
      (ws.beans (.config ⟨0⟩)).map Bean.name = ["first"] ∧
      (ws.beans (.set ⟨0⟩)).map Bean.name = ["first", "second"] ∧
      ¬FollowsPolicies ws ⟨0⟩ (ws.beans (.config ⟨0⟩)) (ws.aliases (.config ⟨0⟩)) := by
  intro ws
  have listed : (ws.beans (.config ⟨0⟩)).map Bean.name = ["first"] := by decide +kernel
  have before : (ws.beans (.set ⟨0⟩)).map Bean.name = ["first", "second"] := by decide +kernel
  refine ⟨by decide +kernel, listed, before, fun follows => ?_⟩
  have keys := follows.beans.keys
  rw [before, listed] at keys
  revert keys
  decide +kernel

/-! ## Sets of one config -/

/-- **Only members.**  A config has the first of its beans of a name.  A set that it is the only
member of, and that is in step with it, has the first or the last of them, as the policy for beans
says.  So the two have the same bean of a name exactly if the set has the first ones, or no other
bean follows the first.  The same holds for aliases and the policy for them. -/
theorem onlyMember_find (reachable : FreelyReachable ws) (inStep : ws.InStep set)
    (only : ((members set).run ws).1 = [c]) (name : String) :
    let settings := (ws.set set).settings
    let beans := ws.beans (.config c)
    let aliases := ws.aliases (.config c)
    (ws.bean? (.config c) name = Keyed.kept false Bean.name name beans ∧
      ws.bean? (.set set) name = Keyed.kept settings.allowBeanOverriding Bean.name name beans ∧
      (ws.bean? (.set set) name = ws.bean? (.config c) name ↔
        settings.allowBeanOverriding = false ∨
          Keyed.kept true Bean.name name beans = Keyed.kept false Bean.name name beans)) ∧
    ws.aliasOf? (.config c) name = Keyed.kept false BeanAlias.name name aliases ∧
      ws.aliasOf? (.set set) name
        = Keyed.kept settings.allowAliasOverriding BeanAlias.name name aliases ∧
      (ws.aliasOf? (.set set) name = ws.aliasOf? (.config c) name ↔
        settings.allowAliasOverriding = false ∨
          Keyed.kept true BeanAlias.name name aliases
            = Keyed.kept false BeanAlias.name name aliases) := by
  have wired := reachable.steady.toWired
  have only : ws.membersOf set = [c] := only
  have known : ws.HasConfig c :=
    hasConfig_of_mem_membersOf reachable.steady (only ▸ List.mem_singleton_self c)
  have follows := followsPolicies_of_inStep reachable.steady inStep
  rw [only, List.flatMap_singleton, List.flatMap_singleton] at follows
  dsimp only
  rw [follows.beans.finds, follows.aliases.finds, bean?_config wired known,
    aliasOf?_config wired known]
  exact ⟨⟨rfl, rfl, Keyed.kept_eq_kept_false_iff⟩, rfl, rfl, Keyed.kept_eq_kept_false_iff⟩

/-! ### A bean that an import declares again -/

/-- A document that imports another; both declare one bean. -/
def repeatingReader : DocumentReader :=
  .scripted [("a.xml", [sharedBean, .importing "b.xml" (.unknown "a.xml")]),
    ("b.xml", [sharedBean])]

/-- A project with the first document as its config. -/
def redeclaring : Workspace DocumentStore :=
  let ws : Workspace DocumentStore := { source := {} }
  let ws := (ws.useProject { name := "demo", reader := repeatingReader }).2
  { ws with source := (ws.source.put "a.xml" "").put "b.xml" "" }.addConfigs ⟨0⟩ ["a.xml"]

theorem reachable_redeclaring : Reachable redeclaring := by
  have empty : Reachable ({ source := {} } : Workspace DocumentStore) := .start _
  have used := empty.management (.useProject _ "demo" repeatingReader {} {})
  exact (used.content (.documents _ _)).management (.addConfigs _ _ _)

/-- The project has a set of that config. -/
def repeating : Workspace DocumentStore :=
  match redeclaring.addSet ⟨0⟩ "all" with
  | .ok (id, ws) => (ws.addMember id "a.xml").2
  | .error _ => redeclaring

theorem reachable_repeating : Reachable repeating := by
  unfold repeating
  split
  · rename_i id ws done
    exact (reachable_redeclaring.management (.addSet done)).content (.addMember ws id "a.xml")
  · exact reachable_redeclaring

/-- The config has its own bean, and the set that of the import. -/
theorem bean?_repeating_ne :
    Reachable repeating ∧ ((members ⟨0⟩).run repeating).1 = [⟨0⟩] ∧
      (repeating.set ⟨0⟩).settings.allowBeanOverriding = true ∧
      repeating.bean? (.set ⟨0⟩) "shared" ≠ repeating.bean? (.config ⟨0⟩) "shared" := by
  refine ⟨reachable_repeating, by decide +kernel, by decide +kernel, ?_⟩
  have resources : (repeating.bean? (.set ⟨0⟩) "shared").map Bean.resource
      ≠ (repeating.bean? (.config ⟨0⟩) "shared").map Bean.resource := by
    decide +kernel
  exact fun same => resources (congrArg (Option.map Bean.resource) same)

/-- If the set allows no bean to be overridden, then it has the config's own. -/
theorem bean?_repeating_eq :
    let strict := repeating.allowBeanOverriding ⟨0⟩ false
    ((members ⟨0⟩).run strict).1 = [⟨0⟩] ∧
      strict.bean? (.set ⟨0⟩) "shared" = strict.bean? (.config ⟨0⟩) "shared" := by
  have reachable := reachable_repeating.content (.allowBeanOverriding _ ⟨0⟩ false)
  have only : ((members ⟨0⟩).run (repeating.allowBeanOverriding ⟨0⟩ false)).1 = [⟨0⟩] := by
    decide +kernel
  obtain ⟨⟨-, -, same⟩, -⟩ :=
    onlyMember_find reachable.freely (reachable.inStep ⟨0⟩) only "shared"
  exact ⟨only, same.2 (.inl (by decide +kernel))⟩

end BeanWiring.Workspace
