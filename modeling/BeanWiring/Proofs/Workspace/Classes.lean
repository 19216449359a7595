/-
# Questions for classes

What a config or a config set answers when it is asked for classes.  A config answers for its own
beans and those of its imports, a set for those of its members in the order in which they were
merged, also for beans that others override: the index of classes does not follow the policies.
A set answers for the trees that it was merged from; where it was left behind, these are not
the trees that its members have now.

Main statement: `listsClasses_of_reachable`, for which beans these answers are exact.
-/
import BeanWiring.Proofs.Config.Classes
import BeanWiring.Proofs.Workspace.Memberships

namespace BeanWiring.Workspace

variable {σ : Type} [DocumentSource σ] [FiniteSource σ] {ws : Workspace σ} {c : ConfigId}
  {set : SetId}

/-! ## Questions to a config -/

section Config

variable (wired : ws.Wired) (known : ws.HasConfig c)

include wired known

theorem hasClass_config (className : String) :
    ((hasClass (.config c) className).run ws).1 = (ws.tree c).hasClass className :=
  answer_askTree wired known (answeredBy_any (fun entry => entry.classIndex.hasClass className)
    (fun _ => rfl) (fun _ => rfl) fun _ => rfl)

theorem beanClasses_config :
    ((beanClasses (.config c)).run ws).1 = (ws.tree c).classes := by
  have answered : AnsweredBy (fun t => (t.classes, .everything)) (fun entries =>
      sortStrings (Keyed.distinct (entries.flatMap fun entry => entry.classIndex.classes)))
      fun _ => false := by
    refine answeredBy_everything fun t => ?_
    exact congrArg (fun classes => sortStrings (Keyed.distinct classes))
      (t.flatMap_nodes fun entry => entry.classIndex.classes)
  exact answer_askTree wired known answered

end Config

/-! ## Exact answers -/

/-- What is answered about classes is exact for a list of beans. -/
def AnswersClasses (ws : Workspace σ) (id : ContextId) (beans : List Bean) : Prop :=
  ListsClasses beans (fun className => ((hasClass id className).run ws).1)
    (fun className => ((beansOfClass id className).run ws).1) ((beanClasses id).run ws).1

theorem answersClasses_config (wired : ws.Wired) (known : ws.HasConfig c) :
    AnswersClasses ws (.config c) (ws.tree c).beansThroughout := by
  have h := (ws.tree c).listsClasses_tree
  rw [AnswersClasses, beanClasses_config wired known]
  simp only [hasClass_config wired known, beansOfClass_config wired known]
  exact h

omit [FiniteSource σ] in
/-- A set is exact for the beans of the trees that it was merged from. -/
theorem answersClasses_of_trees {trees : List (ConfigId × ConfigTree)}
    (view : ((readSet set).run ws).1 = .ofMembers (ws.set set).settings trees) :
    AnswersClasses ws (.set set) (trees.flatMap fun t => t.2.beansThroughout) := by
  have h := MergedSet.listsClasses_ofMembers (ws.set set).settings trees
  rw [← view] at h
  exact h

/-- A set that is in step is exact for the beans that the trees of its members have now. -/
theorem answersClasses_of_inStep (grounded : ws.Grounded) (inStep : ws.InStep set) :
    AnswersClasses ws (.set set)
      ((ws.membersOf set).flatMap fun c => (ws.tree c).beansThroughout) := by
  have h := answersClasses_of_trees ((inStep_iff grounded).1 inStep)
  rwa [List.flatMap_map] at h

/-- In general it is exactly if it lists for every class what its members list. -/
theorem answersClasses_iff (steady : ws.Steady) (set : SetId) :
    AnswersClasses ws (.set set)
        ((ws.membersOf set).flatMap fun c => (ws.tree c).beansThroughout) ↔
      ∀ className, ((beansOfClass (.set set) className).run ws).1
        = (ws.membersOf set).flatMap fun c =>
          ((beansOfClass (.config c) className).run ws).1 := by
  obtain ⟨trees, -, -, view⟩ := steady.exists_trees set
  refine (answersClasses_of_trees view).iff_beans.trans (forall_congr' fun className => ?_)
  have listed : ((ws.membersOf set).flatMap fun c => (ws.tree c).beansThroughout).filter
      (·.IsOfClass className)
        = (ws.membersOf set).flatMap fun c =>
          ((beansOfClass (.config c) className).run ws).1 := by
    rw [List.filter_flatMap]
    refine List.flatMap_congr fun c member => ?_
    rw [beansOfClass_config steady.toWired (hasConfig_of_mem_membersOf steady member),
      (ws.tree c).beansOfClass_eq_filter]
  rw [listed]

/-- **Classes.**  The beans of a class are exactly those that declare it without placeholders, as
the outermost class or one nested in it, each as often as it occurs: in a config or its imports,
inside a component, or nested in another bean.  A class is known if and only if it has beans, and if
and only if it is among the classes listed, which are strictly increasing.  So it is for every
config.  A set lists the beans of its members, one member after the other.  Whatever was done
before, it does so:

* over the trees that it was merged from, one of each member;
* over the trees that its members have now, if it is in step with them;
* over the trees that its members have now, in general, exactly if it lists for every class what
  its members list. -/
theorem listsClasses_of_reachable (reachable : FreelyReachable ws) :
    (∀ c, ws.HasConfig c →
      AnswersClasses ws (.config c) (ws.tree c).beansThroughout ∧
        (ws.tree c).beansThroughout.Perm
          (withInner (ws.beans (.config c) ++ beansOfComponents (ws.components (.config c))))) ∧
    ∀ set,
      let asked := ((members set).run ws).1
      let all := asked.flatMap fun c => (ws.tree c).beansThroughout
      (∃ trees : List (ConfigId × ConfigTree), trees.map Prod.fst = asked ∧
        AnswersClasses ws (.set set) (trees.flatMap fun t => t.2.beansThroughout)) ∧
      (ws.InStep set → AnswersClasses ws (.set set) all) ∧
      (AnswersClasses ws (.set set) all ↔
        ∀ className, ((beansOfClass (.set set) className).run ws).1
          = asked.flatMap fun c => ((beansOfClass (.config c) className).run ws).1) := by
  have steady := reachable.steady
  have wired := steady.toWired
  refine ⟨fun c known => ⟨answersClasses_config wired known, ?_⟩, fun set => ?_⟩
  · rw [beans_config wired known, components_config wired known]
    exact (ws.tree c).beansThroughout_perm
  · obtain ⟨trees, ofMembers, -, view⟩ := steady.exists_trees set
    exact ⟨⟨trees, ofMembers, answersClasses_of_trees view⟩,
      answersClasses_of_inStep steady.toGrounded, answersClasses_iff steady set⟩

/-! ### Beans in many places -/

/-- A declaration of a class. -/
def ofClass (name className : String) (inner : List Declaration := []) : Declaration :=
  { name
    aliases := []
    definition :=
      { className := some className
        properties := inner.map fun d => ⟨d.name, .nested d, .unknown "a.xml"⟩
        location := .unknown "a.xml" } }

/-- Two documents with beans of one class: on its own, nested in another bean, in a component and
in an import, where it has the name of the first. -/
def stockedReader : DocumentReader :=
  .scripted [
    ("a.xml", [
      .bean (ofClass "cart" "shop.Cart" [ofClass "line" "shop.Cart$Line"]),
      .component
        { name := "group"
          beans := [ofClass "extra" "shop.Cart", ofClass "other" "${kind}"]
          location := .unknown "a.xml" },
      .importing "b.xml" (.unknown "a.xml")]),
    ("b.xml", [.bean (ofClass "cart" "shop.Cart")])]

/-- A project with the first document as its config. -/
def warehouse : Workspace DocumentStore :=
  let ws : Workspace DocumentStore := { source := {} }
  let ws := (ws.useProject { name := "demo", reader := stockedReader }).2
  { ws with source := (ws.source.put "a.xml" "").put "b.xml" "" }.addConfigs ⟨0⟩ ["a.xml"]

theorem reachable_warehouse : Reachable warehouse := by
  have empty : Reachable ({ source := {} } : Workspace DocumentStore) := .start _
  have used := empty.management (.useProject _ "demo" stockedReader {} {})
  exact (used.content (.documents _ _)).management (.addConfigs _ _ _)

/-- The project has a set of that config. -/
def stocked : Workspace DocumentStore :=
  match warehouse.addSet ⟨0⟩ "all" with
  | .ok (id, ws) => (ws.addMember id "a.xml").2
  | .error _ => warehouse

theorem reachable_stocked : Reachable stocked := by
  unfold stocked
  split
  · rename_i id ws done
    exact (reachable_warehouse.management (.addSet done)).content (.addMember ws id "a.xml")
  · exact reachable_warehouse

/-- The class has all four beans, in the config and in the set, which has but one of the two of one
name.  The nested class and the one with a placeholder are not known. -/
theorem classes_of_stocked :
    (((beansOfClass (.config ⟨0⟩) "shop.Cart").run stocked).1.map Bean.resource
        = ["a.xml", "a.xml", "a.xml", "b.xml"]) ∧
      ((beansOfClass (.set ⟨0⟩) "shop.Cart").run stocked).1.length = 4 ∧
      ((hasClass (.set ⟨0⟩) "shop.Cart$Line").run stocked).1 = false ∧
      ((beanClasses (.set ⟨0⟩)).run stocked).1 = ["shop.Cart"] := by
  obtain ⟨ofConfigs, ofSets⟩ := listsClasses_of_reachable reachable_stocked.freely
  obtain ⟨-, follows, -⟩ := ofSets ⟨0⟩
  have own : ((beansOfClass (.config ⟨0⟩) "shop.Cart").run stocked).1 = _ :=
    (ofConfigs ⟨0⟩ (by decide)).1.beans "shop.Cart"
  have all : ((beansOfClass (.set ⟨0⟩) "shop.Cart").run stocked).1 = _ :=
    (follows (reachable_stocked.inStep ⟨0⟩)).beans "shop.Cart"
  rw [own, all]
  refine ⟨?_, ?_, ?_, ?_⟩
  · decide +kernel
  · decide +kernel
  · decide +kernel
  · decide +kernel

/-- The set was asked for its members.  Then the imported document was removed, and its config
reloaded. -/
def depleted : Workspace DocumentStore :=
  let ws := ((members ⟨0⟩).run stocked).2
  { ws with source := ws.source.remove "b.xml" }.reloadConfig ⟨1⟩

theorem freelyReachable_depleted : FreelyReachable depleted := by
  have merged := reachable_stocked.freely.content (.query (.members _ ⟨0⟩ (by decide)))
  exact (merged.content (.documents _ _)).reloadConfig ⟨1⟩

/-- The set was left behind, and lists a bean of the class that its only member lists no more. -/
theorem not_answersClasses_depleted :
    ((members ⟨0⟩).run depleted).1 = [⟨0⟩] ∧
      ((beansOfClass (.config ⟨0⟩) "shop.Cart").run depleted).1.length = 3 ∧
      ((beansOfClass (.set ⟨0⟩) "shop.Cart").run depleted).1.length = 4 ∧
      ¬AnswersClasses depleted (.set ⟨0⟩) (depleted.tree ⟨0⟩).beansThroughout := by
  have now : ((beansOfClass (.config ⟨0⟩) "shop.Cart").run depleted).1.length = 3 := by
    decide +kernel
  have before : ((beansOfClass (.set ⟨0⟩) "shop.Cart").run depleted).1.length = 4 := by
    decide +kernel
  refine ⟨by decide +kernel, now, before, fun answers => ?_⟩
  have listed := answersClasses_config freelyReachable_depleted.grounded.toWired
    (show depleted.HasConfig ⟨0⟩ by decide +kernel)
  rw [answers.beans, ← listed.beans, now] at before
  cases before

end BeanWiring.Workspace
