/-
# Merging one parent at a time

The merged definition of a bean collects all ancestors first and then lays the definitions over
one another, from the root down.  It could as well be made one parent at a time: the merged
definition of the parent, with the definition of the bean laid over it.  The walk from the
parent starts without the bean among those met, and with the parent under its own name where
the bean may have named it by an alias; where the walk from the bean comes to a root, this
makes no difference.

Main statements:

* `ancestors_eq_ancestors_parent` : the ancestors of a bean are its parent and the ancestors
  of its parent;
* `merged_stepwise` : merging at once and merging one parent at a time come to the same.
-/
import BeanWiring.Proofs.Lookup.Inheritance
import BeanWiring.Proofs.Lookup.Names

namespace BeanWiring

variable {ctx : Context}

/-! ## Walks to a root -/

/-- The parent that the last bean of a walk names, where the walk starts by following `parent`. -/
def lastParent (parent : Option String) (chain : List Bean) : Option String :=
  chain.foldl (fun _ p => p.parent) parent

/-- The last bean of a walk is a root if no parent is left to follow. -/
theorem lastParent_eq_none_iff {b : Bean} {chain : List Bean} :
    lastParent b.parent chain = none ↔
      ∃ root, (b :: chain).getLast? = some root ∧ root.isChild = false := by
  induction chain generalizing b with
  | nil => simp [lastParent, Bean.isChild, Definition.isChild, Bean.parent]
  | cons p chain ih =>
    rw [List.getLast?_cons_cons]
    exact ih

/-- A walk to a root goes the same way if fewer beans were met before, whatever name the bean
that it starts from was looked up by. -/
theorem ParentWalk.of_subset {met met' : List BeanId} {current current' : String}
    {parent : Option String} {chain : List Bean} (walk : ParentWalk ctx met current parent chain)
    (ends : lastParent parent chain = none) (fewer : met' ⊆ met)
    (other : parent ≠ some current') : ParentWalk ctx met' current' parent chain := by
  induction walk generalizing met' current' with
  | noParent => exact .noParent
  | ownName | notFound | metBefore => cases ends
  | @next met current name p rest _ found new walk ih =>
    have onward : p.parent ≠ some name := by
      intro same
      -- The walk would end here, at a bean that has a parent.
      have stops : rest = [] := by
        rw [same] at walk
        cases walk with
        | ownName => rfl
        | notFound other _ => exact absurd rfl other
        | metBefore other _ _ => exact absurd rfl other
        | next other _ _ _ => exact absurd rfl other
      rw [stops] at ends
      exact Option.some_ne_none name (same.symm.trans ends)
    have still : p.id ∉ met' := fun before => new (fewer before)
    exact .next (fun same => other (congrArg some same)) found still
      (ih ends (List.cons_subset_cons _ fewer) onward)

/-! ## The parent's ancestors -/

/-- Where the ancestors of a bean end at a root, the first of them is the parent, and the others
are the ancestors of the parent. -/
theorem ancestors_eq_ancestors_parent {b : Bean} {name : String} (parent : b.parent = some name)
    (ends : lastParent b.parent (ancestors ctx b) = none) :
    ∃ p, ctx.resolve? name = some p ∧ ancestors ctx b = p :: ancestors ctx p := by
  have walk := parentWalk_ancestors ctx b
  rw [parent] at walk ends
  generalize ancestors ctx b = chain at walk ends ⊢
  cases walk with
  | ownName | notFound | metBefore => cases ends
  | @next _ _ _ p rest _ found _ onward =>
    refine ⟨p, found, ?_⟩
    -- A parent that names itself would be met again at once.
    have other : p.parent ≠ some p.name := by
      intro same
      have stops : rest = [] := by
        have again := Context.resolve?_name found
        rw [same] at onward
        cases onward with
        | ownName | notFound | metBefore => rfl
        | next _ found' new _ =>
          rw [again] at found'
          cases found'
          exact absurd List.mem_cons_self new
      rw [stops] at ends
      exact Option.some_ne_none p.name (same.symm.trans ends)
    have alone : ParentWalk ctx [p.id] p.name p.parent rest :=
      onward.of_subset ends (List.cons_subset_cons _ (List.nil_subset _)) other
    rw [alone.unique (parentWalk_ancestors ctx p)]

/-- Where the ancestors of a bean end at a root, the merged definition is made of all
definitions from the bean to the root. -/
theorem merged_eq_layered_of_ends {b root : Bean} {upper : List Bean}
    (line : b :: ancestors ctx b = upper ++ [root]) (isRoot : root.isChild = false) :
    merged ctx b = Definition.layered (upper.map Bean.definition) root.definition := by
  cases upper with
  | nil =>
    cases (List.cons.inj line).1
    exact merged_of_not_isChild isRoot
  | cons c between =>
    obtain ⟨rfl, chain⟩ := List.cons.inj line
    exact merged_eq_layered chain isRoot

/-- Where the ancestors of a bean end at a root, its merged definition is its own, laid over the
merged definition of its parent. -/
theorem merged_eq_merged_parent {b p : Bean} (chain : ancestors ctx b = p :: ancestors ctx p)
    (ends : lastParent b.parent (ancestors ctx b) = none) :
    merged ctx b = (merged ctx p).overrideWith b.definition := by
  rw [chain] at ends
  obtain ⟨root, last, isRoot⟩ := lastParent_eq_none_iff.1 (show lastParent p.parent _ = _ from ends)
  obtain ⟨upper, line⟩ := List.getLast?_eq_some_iff.1 last
  have longer : b :: ancestors ctx b = (b :: upper) ++ [root] := by
    rw [chain, line]
    rfl
  rw [merged_eq_layered_of_ends longer isRoot, merged_eq_layered_of_ends line isRoot]
  rfl

/-! ## One parent at a time -/

/-- Merging one parent at a time comes to a definition, along a line of parents: a bean without
parent has its own definition, and any other bean has its own laid over that of its parent. -/
inductive MergesStepwise (ctx : Context) :
    Bean → (line : List Bean) → Definition (Value Declaration) → Prop
  | root {b : Bean} (noParent : b.parent = none) : MergesStepwise ctx b [] b.definition
  | child {b p : Bean} {name : String} {line : List Bean} {d : Definition (Value Declaration)}
      (parent : b.parent = some name) (found : ctx.resolve? name = some p)
      (above : MergesStepwise ctx p line d) :
      MergesStepwise ctx b (p :: line) (d.overrideWith b.definition)

namespace MergesStepwise

variable {b : Bean} {line line' : List Bean} {d d' : Definition (Value Declaration)}

/-- What merging one parent at a time comes to is determined by the bean. -/
theorem unique (h : MergesStepwise ctx b line d) (h' : MergesStepwise ctx b line' d') :
    line = line' ∧ d = d' := by
  induction h generalizing line' d' with
  | root noParent =>
    cases h' with
    | root _ => exact ⟨rfl, rfl⟩
    | child parent _ _ => rw [noParent] at parent; cases parent
  | child parent found _ ih =>
    cases h' with
    | root noParent => rw [parent] at noParent; cases noParent
    | child parent' found' above' =>
      cases parent.symm.trans parent'
      cases found.symm.trans found'
      obtain ⟨rfl, rfl⟩ := ih above'
      exact ⟨rfl, rfl⟩

/-- Each bean on the line is merged along what is left of it. -/
theorem of_mem (h : MergesStepwise ctx b line d) {a : Bean} (above : a ∈ line) :
    ctx.Finds a ∧ ∃ rest e, MergesStepwise ctx a rest e ∧ rest.length < line.length := by
  induction h with
  | root _ => cases above
  | @child _ p _ line _ _ found step ih =>
    rcases List.mem_cons.1 above with rfl | above
    · exact ⟨⟨_, found⟩, _, _, step, Nat.lt_succ_self _⟩
    · obtain ⟨finds, rest, e, merges, shorter⟩ := ih above
      exact ⟨finds, rest, e, merges, Nat.lt_succ_of_lt shorter⟩

/-- Where names and identities go together, no bean is met twice on the line. -/
theorem nodup (named : ctx.IsNamed) (finds : ctx.Finds b) (h : MergesStepwise ctx b line d) :
    ((b :: line).map Bean.id).Nodup := by
  induction h with
  | root _ => exact List.nodup_singleton _
  | @child b p name line d parent found above ih =>
    rw [List.map_cons, List.nodup_cons]
    refine ⟨?_, ih ⟨name, found⟩⟩
    intro again
    obtain ⟨a, there, same⟩ := List.mem_map.1 again
    have whole : MergesStepwise ctx b (p :: line) _ := .child parent found above
    obtain ⟨findsA, rest, e, merges, shorter⟩ := whole.of_mem there
    -- The line from the bean would be shorter than itself.
    obtain rfl := named.eq_of_id findsA finds same
    rw [(merges.unique whole).1] at shorter
    exact absurd shorter (Nat.lt_irrefl _)

/-- A line of different beans is walked to its end. -/
theorem parentWalk (h : MergesStepwise ctx b line d) {met : List BeanId} {current : String}
    (start : ctx.resolve? current = some b) (once : ((b :: line).map Bean.id).Nodup)
    (apart : ∀ a ∈ line, a.id ∉ met) : ParentWalk ctx (b.id :: met) current b.parent line := by
  induction h generalizing met current with
  | root noParent =>
    rw [noParent]
    exact .noParent
  | @child b p name line d parent found above ih =>
    rw [List.map_cons, List.nodup_cons, List.map_cons, List.mem_cons, not_or] at once
    obtain ⟨⟨other, apart'⟩, once⟩ := once
    have new : p.id ∉ b.id :: met := by
      rw [List.mem_cons, not_or]
      exact ⟨fun same => other same.symm, apart p List.mem_cons_self⟩
    have notCurrent : name ≠ current := by
      rintro rfl
      cases start.symm.trans found
      exact other rfl
    rw [parent]
    refine .next notCurrent found new (ih found once ?_)
    intro a ha
    rw [List.mem_cons, not_or]
    exact ⟨fun same => apart' (same ▸ List.mem_map_of_mem ha),
      apart a (List.mem_cons_of_mem p ha)⟩

end MergesStepwise

/-- A bean whose ancestors end at a root is merged along them. -/
theorem mergesStepwise_ancestors {b : Bean}
    (ends : lastParent b.parent (ancestors ctx b) = none) :
    MergesStepwise ctx b (ancestors ctx b) (merged ctx b) := by
  -- The induction is on the number of ancestors.
  obtain ⟨chain, h⟩ : ∃ chain, ancestors ctx b = chain := ⟨_, rfl⟩
  induction chain generalizing b with
  | nil =>
    rw [h] at ends ⊢
    have noParent : b.parent = none := ends
    have stands : b.isChild = false := by
      simpa [Bean.isChild, Definition.isChild, Bean.parent] using noParent
    rw [merged_of_not_isChild stands]
    exact .root noParent
  | cons p rest ih =>
    obtain ⟨name, parent⟩ : ∃ name, b.parent = some name := by
      cases parent : b.parent with
      | some name => exact ⟨name, rfl⟩
      | none =>
        have none : ancestors ctx b = [] := by
          rw [ancestors, parent]
          rfl
        rw [none] at h
        cases h
    obtain ⟨q, found, chain⟩ := ancestors_eq_ancestors_parent parent ends
    have merges := merged_eq_merged_parent chain ends
    rw [chain] at h ends ⊢
    obtain ⟨rfl, above⟩ := List.cons.inj h
    rw [merges]
    exact .child parent found (ih ends above)

/-- **Composition.**  If the ancestors of a bean end at a bean without parent, its merged
definition is what merging one parent at a time comes to: if it has a parent, this is its own
definition laid over the merged definition of the bean that the parent's name stands for.
Where names and identities go together, what merging one parent at a time comes to for a bean
that is found by name is its merged definition, along its ancestors. -/
theorem merged_stepwise (ctx : Context) (b : Bean) :
    (∀ root, (b :: ancestors ctx b).getLast? = some root → root.isChild = false →
      MergesStepwise ctx b (ancestors ctx b) (merged ctx b) ∧
      ∀ name, b.parent = some name → ∃ p, ctx.resolve? name = some p ∧
        merged ctx b = (merged ctx p).overrideWith b.definition) ∧
    (ctx.Finds b → ctx.IsNamed → ∀ line d, MergesStepwise ctx b line d →
      line = ancestors ctx b ∧ d = merged ctx b) := by
  refine ⟨?_, ?_⟩
  · intro root last isRoot
    have ends := lastParent_eq_none_iff.2 ⟨root, last, isRoot⟩
    refine ⟨mergesStepwise_ancestors ends, ?_⟩
    intro name parent
    obtain ⟨p, found, chain⟩ := ancestors_eq_ancestors_parent parent ends
    exact ⟨p, found, merged_eq_merged_parent chain ends⟩
  · intro finds named line d merges
    obtain ⟨_, found⟩ := finds
    have apart : ∀ a ∈ line, a.id ∉ ([] : List BeanId) := fun _ _ => List.not_mem_nil
    have walk := merges.parentWalk (Context.resolve?_name found) (merges.nodup named ⟨_, found⟩)
      apart
    have chain := walk.unique (parentWalk_ancestors ctx b)
    -- The line is that of the ancestors, and so it ends at a root.
    have ends : lastParent b.parent line = none := by
      clear walk chain found apart
      induction merges with
      | root noParent => exact noParent
      | child _ _ _ ih => exact ih
    rw [chain] at ends
    exact ⟨chain, (merges.unique (mergesStepwise_ancestors ends)).2⟩

/-- Of three levels, the bean `leaf` has its definition laid over the merged definition of its
parent `middle`, which names its own parent by an alias. -/
theorem merged_leaf_stepwise :
    ∃ leaf middle base, threeLevels.resolve? "leaf" = some leaf ∧
      threeLevels.resolve? "middle" = some middle ∧ threeLevels.resolve? "root" = some base ∧
      merged threeLevels leaf = (merged threeLevels middle).overrideWith leaf.definition ∧
      [middle, base] = ancestors threeLevels leaf ∧
      (base.definition.overrideWith middle.definition).overrideWith leaf.definition
        = merged threeLevels leaf := by
  obtain ⟨leaf, middle, base, found, foundMiddle, foundBase, parent, grandparent, noParent⟩ :
      ∃ leaf middle base, threeLevels.resolve? "leaf" = some leaf ∧
        threeLevels.resolve? "middle" = some middle ∧ threeLevels.resolve? "root" = some base ∧
        leaf.parent = some "middle" ∧ middle.parent = some "root" ∧ base.parent = none :=
    ⟨_, _, _, rfl, rfl, rfl, rfl, rfl, rfl⟩
  have named : threeLevels.IsNamed := by
    intro b hb
    simp only [Context.allBeans, threeLevels, beansOfComponents, List.append_nil,
      List.mem_cons, List.not_mem_nil, or_false] at hb
    rcases hb with rfl | rfl | rfl <;> exact ⟨_, rfl⟩
  obtain ⟨atOnce, stepwise⟩ := merged_stepwise threeLevels leaf
  obtain ⟨line, same⟩ := stepwise ⟨"leaf", found⟩ named _ _
    (.child parent foundMiddle (.child grandparent foundBase (.root noParent)))
  have last : (leaf :: ancestors threeLevels leaf).getLast? = some base := by
    rw [← line]
    rfl
  obtain ⟨p, isMiddle, merges⟩ := (atOnce base last
    (by simpa [Bean.isChild, Definition.isChild, Bean.parent] using noParent)).2 "middle" parent
  cases foundMiddle.symm.trans isMiddle
  exact ⟨leaf, middle, base, found, foundMiddle, foundBase, merges, line, same⟩

end BeanWiring
