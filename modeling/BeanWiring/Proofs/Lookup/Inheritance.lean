/-
# Inheritance along parents

What the ancestors of a bean and its merged definition are, whatever the graph of parents
looks like: names may be aliases, parents may be missing, and chains may run into cycles of
any length.

`ParentWalk` is the walk along parents without any bound on its length.  The walk of
`ancestors` is bounded by the number of beans in the context; since no bean is met twice,
the bound is never what ends it.

Main statements:

* `parentWalk_ancestors`, `ParentWalk.unique` : every walk ends, and in one way only;
* `merged_isFlattening_or_declared` : a bean whose ancestors end at a bean without parent
  has the definitions of all of them flattened, and any other bean has its own definition.
-/
import Mathlib.Data.List.Nodup
import Mathlib.Data.List.Perm.Subperm
import BeanWiring.Lookup.Ancestry
import BeanWiring.Proofs.Definition.Layers

namespace BeanWiring

/-! ## The walk along parents -/

/-- The walk along parents from a bean that was looked up as `current` and names `parent`,
when the beans of `met` have been met already.  The last argument lists the beans it meets
from here on. -/
inductive ParentWalk (ctx : Context) :
    (met : List BeanId) → (current : String) → (parent : Option String) → List Bean → Prop
  | noParent {met : List BeanId} {current : String} : ParentWalk ctx met current none []
  | ownName {met : List BeanId} {current : String} :
      ParentWalk ctx met current (some current) []
  | notFound {met : List BeanId} {current name : String} (other : name ≠ current)
      (found : ctx.resolve? name = none) : ParentWalk ctx met current (some name) []
  | metBefore {met : List BeanId} {current name : String} {p : Bean} (other : name ≠ current)
      (found : ctx.resolve? name = some p) (again : p.id ∈ met) :
      ParentWalk ctx met current (some name) []
  | next {met : List BeanId} {current name : String} {p : Bean} {rest : List Bean}
      (other : name ≠ current) (found : ctx.resolve? name = some p) (new : p.id ∉ met)
      (walk : ParentWalk ctx (p.id :: met) name p.parent rest) :
      ParentWalk ctx met current (some name) (p :: rest)

namespace ParentWalk

variable {ctx : Context} {met : List BeanId} {current : String} {parent : Option String}

/-- Where a walk leads is determined by where it starts. -/
theorem unique {first second : List Bean} (h : ParentWalk ctx met current parent first)
    (h' : ParentWalk ctx met current parent second) : first = second := by
  induction h generalizing second with
  | noParent => cases h'; rfl
  | ownName =>
    cases h' with
    | ownName => rfl
    | notFound other _ => exact absurd rfl other
    | metBefore other _ _ => exact absurd rfl other
    | next other _ _ _ => exact absurd rfl other
  | notFound other found =>
    cases h' with
    | ownName => rfl
    | notFound _ _ => rfl
    | metBefore _ _ _ => rfl
    | next _ found' _ _ => rw [found] at found'; cases found'
  | metBefore other found again =>
    cases h' with
    | ownName => rfl
    | notFound _ _ => rfl
    | metBefore _ _ _ => rfl
    | next _ found' new _ =>
      rw [found] at found'
      cases found'
      exact absurd again new
  | next other found new walk ih =>
    cases h' with
    | ownName => exact absurd rfl other
    | notFound _ found' => rw [found] at found'; cases found'
    | metBefore _ found' again =>
      rw [found] at found'
      cases found'
      exact absurd again new
    | next _ found' _ walk' =>
      rw [found] at found'
      cases found'
      rw [ih walk']

/-- A walk only meets beans of the context. -/
theorem mem_allBeans {chain : List Bean} (h : ParentWalk ctx met current parent chain) :
    ∀ p ∈ chain, p ∈ ctx.allBeans := by
  induction h with
  | noParent | ownName | notFound | metBefore => intro p hp; cases hp
  | next other found new walk ih =>
    intro p hp
    rcases List.mem_cons.1 hp with rfl | hp
    · exact Context.resolve?_mem found
    · exact ih p hp

end ParentWalk

/-! ## Every walk ends -/

/-- A bounded walk is the unbounded one, as long as the bound exceeds the number of beans
that are left to meet.  The beans met before and those of the context lie in `known`. -/
theorem parentWalk_ancestorsFrom {ctx : Context} (known : List BeanId)
    (beans : ∀ p ∈ ctx.allBeans, p.id ∈ known) (fuel : Nat) {met : List BeanId}
    {current : String} {parent : Option String} (once : met.Nodup) (inside : met ⊆ known)
    (enough : known.length < fuel + met.length) :
    ParentWalk ctx met current parent (ancestorsFrom ctx fuel met current parent) := by
  induction fuel generalizing met current parent with
  | zero =>
    have bound : met.length ≤ known.length := (once.subperm inside).length_le
    omega
  | succ fuel ih =>
    cases parent with
    | none => exact .noParent
    | some name =>
      unfold ancestorsFrom
      by_cases same : name = current
      · subst same
        rw [if_pos rfl]
        exact .ownName
      · rw [if_neg same]
        cases found : ctx.resolve? name with
        | none => exact .notFound same found
        | some p =>
          by_cases again : p.id ∈ met
          · simp only [again, if_true]
            exact .metBefore same found again
          · simp only [again, if_false]
            -- The bean joins those met, so one of those known is used up.
            have once' : (p.id :: met).Nodup := List.nodup_cons.2 ⟨again, once⟩
            have inside' : p.id :: met ⊆ known :=
              List.cons_subset.2 ⟨beans p (Context.resolve?_mem found), inside⟩
            have enough' : known.length < fuel + (p.id :: met).length := by
              rw [List.length_cons]
              omega
            exact .next same found again (ih once' inside' enough')

/-- The walk of `ancestors` is never cut short by its bound. -/
theorem parentWalk_ancestors (ctx : Context) (b : Bean) :
    ParentWalk ctx [b.id] b.name b.parent (ancestors ctx b) := by
  refine parentWalk_ancestorsFrom (b.id :: ctx.allBeans.map Bean.id) ?_ _
    (List.nodup_singleton _) ?_ ?_
  · intro p hp
    exact List.mem_cons_of_mem _ (List.mem_map_of_mem hp)
  · intro id hid
    rw [List.mem_singleton.1 hid]
    exact List.mem_cons_self
  · rw [List.length_cons, List.length_map, List.length_singleton]
    omega

/-- No walk is longer than its bound. -/
theorem length_ancestorsFrom_le (ctx : Context) (fuel : Nat) (met : List BeanId) (current : String)
    (parent : Option String) :
    (ancestorsFrom ctx fuel met current parent).length ≤ fuel := by
  induction fuel generalizing met current parent with
  | zero => exact Nat.le_refl 0
  | succ fuel ih =>
    cases parent with
    | none => exact Nat.zero_le _
    | some name =>
      unfold ancestorsFrom
      split
      · exact Nat.zero_le _
      · split
        · exact Nat.zero_le _
        · split
          · exact Nat.zero_le _
          · exact Nat.succ_le_succ (ih _ _ _)

/-! ## Merged definitions -/

/-- Where the ancestors end at a root, a bean is its definition laid over theirs. -/
theorem merged_eq_layered {ctx : Context} {b root : Bean} {between : List Bean}
    (chain : ancestors ctx b = between ++ [root]) (isRoot : root.isChild = false) :
    merged ctx b
      = Definition.layered ((b :: between).map Bean.definition) root.definition := by
  have last : rootOf? (ancestors ctx b) = some root := by
    rw [chain, rootOf?, List.getLast?_concat]
    simp [Option.filter, isRoot]
  rw [merged_eq_override last, chain, List.dropLast_concat, Definition.layered, List.map_cons,
    List.foldr_cons, List.map_reverse, List.foldl_reverse]

/-- Where the ancestors do not end at a root, a bean keeps the definition it declares. -/
theorem merged_eq_definition {ctx : Context} {b : Bean}
    (noRoot : ∀ root, (ancestors ctx b).getLast? = some root → root.isChild = true) :
    merged ctx b = b.definition := by
  have last : rootOf? (ancestors ctx b) = none := by
    rw [rootOf?]
    cases h : (ancestors ctx b).getLast? with
    | none => rfl
    | some root => simp [Option.filter, noRoot root h]
  simp [merged, last]

/-- **Inheritance.**  The walk along the parents of a bean always ends, in one way.  If the
last bean it meets has no parent, the merged definition flattens the definitions from the
bean to that root and has no parent either; otherwise the merged definition is the declared
one. -/
theorem merged_isFlattening_or_declared (ctx : Context) (b : Bean)
    (own : b.definition.IsWellFormed)
    (others : ∀ c ∈ ctx.allBeans, c.definition.IsWellFormed) :
    ParentWalk ctx [b.id] b.name b.parent (ancestors ctx b) ∧
    (∀ chain, ParentWalk ctx [b.id] b.name b.parent chain → chain = ancestors ctx b) ∧
    (∀ root, (ancestors ctx b).getLast? = some root → root.isChild = false →
      Definition.IsFlattening ((b :: ancestors ctx b).map Bean.definition) root.definition
        (merged ctx b) ∧ (merged ctx b).parent = none) ∧
    ((∀ root, (ancestors ctx b).getLast? = some root → root.isChild = true) →
      merged ctx b = b.definition) := by
  have walk := parentWalk_ancestors ctx b
  refine ⟨walk, fun chain h => h.unique walk, ?_, merged_eq_definition⟩
  intro root last isRoot
  obtain ⟨between, chain⟩ := List.getLast?_eq_some_iff.1 last
  have flat : Definition.IsFlattening ((b :: ancestors ctx b).map Bean.definition)
      root.definition (merged ctx b) := by
    rw [merged_eq_layered chain isRoot, chain, List.map_cons, List.map_append, List.map_cons,
      List.map_cons, List.map_nil]
    apply Definition.isFlattening_layered
    intro d hd
    rw [List.mem_cons, ← List.map_singleton, ← List.map_append, ← chain] at hd
    rcases hd with rfl | hd
    · exact own
    · obtain ⟨c, hc, rfl⟩ := List.mem_map.1 hd
      exact others c (walk.mem_allBeans c hc)
  refine ⟨flat, flat.parent.trans ?_⟩
  simpa [Bean.isChild, Definition.isChild] using isRoot

/-! ### Three levels -/

/-- A bean `leaf` below `middle`, which names its parent `base` by the alias `root`. -/
def threeLevels : Context :=
  let line : Nat → Location := .atLine "beans.xml"
  let text (name value : String) (n : Nat) : Property (Value Declaration) :=
    ⟨name, .literal value none, line n⟩
  let base : Definition (Value Declaration) :=
    { className := some "Foo", scope := some "", location := line 1
      properties := [text "x" "1" 2, text "y" "0" 3] }
  let middle : Definition (Value Declaration) :=
    { parent := some "root", scope := some "", location := line 5
      properties := [text "z" "3" 6, text "y" "2" 7] }
  let leaf : Definition (Value Declaration) :=
    { parent := some "middle", isAbstract := true, location := line 9 }
  { name := "beans.xml"
    kind := .config
    beans := [.named "beans.xml" ⟨"base", [], base⟩, .named "beans.xml" ⟨"middle", [], middle⟩,
      .named "beans.xml" ⟨"leaf", [], leaf⟩]
    aliases := [⟨"root", "base", line 11⟩] }

/-- The bean `leaf` is the flattening of all three. -/
theorem merged_leaf_of_threeLevels :
    ∃ leaf middle base, threeLevels.resolve? "leaf" = some leaf ∧
      ancestors threeLevels leaf = [middle, base] ∧
      Definition.IsFlattening ([leaf, middle, base].map Bean.definition) base.definition
        (merged threeLevels leaf) := by
  refine ⟨_, _, _, rfl, rfl, ?_⟩
  have wellFormed : ∀ c ∈ threeLevels.allBeans, c.definition.IsWellFormed := by decide
  exact ((merged_isFlattening_or_declared threeLevels _ (by decide) wellFormed).2.2.1 _ rfl rfl).1

end BeanWiring
