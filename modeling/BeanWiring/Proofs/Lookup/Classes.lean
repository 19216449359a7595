/-
# The class of a bean and of its merged definition

A class is searched along parent names, and ancestors are collected by identity.  Where the
ancestors of a bean end at a root, the merged definition has the class of the nearest bean on the
line that declares one.  The search for the class comes along the same line, but it stops where a
bean names its parent as the first bean is named, whatever bean stands for that name.  So it misses
a class above a namesake: an inner bean and a bean that is overridden need not be what their own
names stand for.

Main statements:

* `fst_classAlong` : the search for a class as a search along the line of ancestors;
* `beanClass_eq_merged_iff` : where the class of a bean is the class of its merged definition.
-/
import BeanWiring.Proofs.Lookup.Stepwise

namespace BeanWiring

variable {ctx : Context} {b : Bean}

/-! ## The line of ancestors -/

/-- A walk that goes on names the next bean it meets. -/
theorem ParentWalk.resolve?_of_append {met : List BeanId} {current : String}
    {parent : Option String} {lower upper : List Bean} {q : Bean}
    (walk : ParentWalk ctx met current parent (lower ++ q :: upper)) :
    ∃ name, lastParent parent lower = some name ∧ ctx.resolve? name = some q ∧ q.id ∉ met := by
  induction lower generalizing met current parent with
  | nil =>
    cases walk with
    | next _ found new _ => exact ⟨_, rfl, found, new⟩
  | cons p lower ih =>
    cases walk with
    | next _ _ _ walk =>
      obtain ⟨name, named, found, new⟩ := ih walk
      exact ⟨name, named, found, fun before => new (List.mem_cons_of_mem _ before)⟩

/-- Where the ancestors of a bean end at a root, its merged definition has the class of the
nearest bean that declares one. -/
theorem className_merged (ends : lastParent b.parent (ancestors ctx b) = none) :
    (merged ctx b).className = (b :: ancestors ctx b).findSome? Bean.className := by
  obtain ⟨root, last, isRoot⟩ := lastParent_eq_none_iff.1 ends
  obtain ⟨upper, line⟩ := List.getLast?_eq_some_iff.1 last
  rw [merged_eq_layered_of_ends line isRoot, line,
    Definition.layered_eq_findSome?_append Definition.className fun _ _ _ => rfl,
    ← List.map_singleton, ← List.map_append, List.findSome?_map]
  rfl

/-! ## The search for a class -/

/-- The class of the first bean on a line that declares one, where the line is followed no further
than to a bean that names its parent `own`. -/
def classBefore (own : String) (parent : Option String) : List Bean → Option String
  | [] => none
  | p :: line => if parent = some own then none else p.className.or (classBefore own p.parent line)

/-- On a line to a root, the names that have been followed already do not come again, except for
the one that the search started with. -/
theorem fst_classAlong {met : List BeanId} {current own : String} {parent : Option String}
    {line : List Bean} (walk : ParentWalk ctx met current parent line)
    (ends : lastParent parent line = none) {fuel : Nat} (enough : line.length < fuel)
    {followed : List String} (start : own ∈ followed)
    (passed : ∀ name ∈ followed, name = own ∨ ∃ p, ctx.resolve? name = some p ∧ p.id ∈ met) :
    (classAlong ctx fuel followed parent).1 = classBefore own parent line := by
  induction walk generalizing fuel followed with
  | noParent =>
    cases fuel with
    | zero => rfl
    | succ fuel => rfl
  | ownName | notFound | metBefore => cases ends
  | @next met current name p line _ found new walk ih =>
    obtain ⟨fuel, rfl⟩ : ∃ rest, fuel = rest + 1 := ⟨fuel - 1, by omega⟩
    have again : name ∈ followed ↔ name = own := by
      constructor
      · intro before
        rcases passed name before with same | ⟨q, found', there⟩
        · exact same
        · cases found.symm.trans found'
          exact absurd there new
      · rintro rfl
        exact start
    by_cases same : name = own
    · rw [classAlong, if_pos (again.2 same), classBefore, if_pos (congrArg some same)]
    · rw [classAlong, if_neg (fun before => same (again.1 before)), classBefore,
        if_neg (fun h => same (Option.some.inj h))]
      simp only [found]
      cases declared : p.className with
      | some className => rfl
      | none =>
        rw [List.length_cons] at enough
        refine ih ends (by omega) (List.mem_cons_of_mem name start) ?_
        intro other hother
        rcases List.mem_cons.1 hother with rfl | before
        · exact Or.inr ⟨p, found, List.mem_cons_self⟩
        · exact (passed other before).imp_right fun ⟨q, found', there⟩ =>
            ⟨q, found', List.mem_cons_of_mem _ there⟩

/-- Where the ancestors of a bean end at a root, its class is searched for along them. -/
theorem beanClass_eq_classBefore (ends : lastParent b.parent (ancestors ctx b) = none) :
    beanClass ctx b = b.className.or (classBefore b.name b.parent (ancestors ctx b)) := by
  rw [beanClass, searchClass]
  cases declared : b.className with
  | some className => rfl
  | none =>
    have enough : (ancestors ctx b).length < ctx.allBeans.length + 2 :=
      Nat.lt_succ_of_le (length_ancestorsFrom_le ctx _ _ _ _)
    apply fst_classAlong (parentWalk_ancestors ctx b) ends enough List.mem_cons_self
    intro name there
    exact Or.inl (List.mem_singleton.1 there)

/-! ## Where the two agree -/

/-- The line from a bean without class of its own comes, before it comes to a class, to a bean that
names its parent as the first one is named; and further up there is a class. -/
def ClassHidden (ctx : Context) (b : Bean) : Prop :=
  ∃ lower upper, ancestors ctx b = lower ++ upper ∧ lastParent b.parent lower = some b.name ∧
    (∀ q ∈ b :: lower, q.className = none) ∧ ∃ q ∈ upper, q.className ≠ none

/-- The search along a line misses a class exactly if it stops below one. -/
theorem classBefore_eq_or (own : String) (parent : Option String) (line : List Bean) :
    classBefore own parent line = line.findSome? Bean.className ∨
      classBefore own parent line = none ∧ ∃ lower upper, line = lower ++ upper ∧
        lastParent parent lower = some own ∧ (∀ q ∈ lower, q.className = none) ∧
        ∃ q ∈ upper, q.className ≠ none := by
  induction line generalizing parent with
  | nil => exact Or.inl rfl
  | cons p line ih =>
    by_cases stops : parent = some own
    · rw [classBefore, if_pos stops]
      cases found : (p :: line).findSome? Bean.className with
      | none => exact Or.inl rfl
      | some className =>
        obtain ⟨q, hq, declared⟩ := List.exists_of_findSome?_eq_some found
        exact Or.inr ⟨rfl, [], p :: line, rfl, stops, nofun, q, hq, by rw [declared]; nofun⟩
    · rw [classBefore, if_neg stops, List.findSome?_cons]
      cases declared : p.className with
      | some className => exact Or.inl rfl
      | none =>
        rcases ih p.parent with same | ⟨none, lower, upper, rfl, named, without, above⟩
        · exact Or.inl same
        · exact Or.inr ⟨none, p :: lower, upper, rfl, named,
            List.forall_mem_cons.2 ⟨declared, without⟩, above⟩

theorem classBefore_eq_none {own : String} {parent : Option String} {lower upper : List Bean}
    (stops : lastParent parent lower = some own) (without : ∀ q ∈ lower, q.className = none) :
    classBefore own parent (lower ++ upper) = none := by
  induction lower generalizing parent with
  | nil =>
    cases upper with
    | nil => rfl
    | cons q upper => exact if_pos stops
  | cons p lower ih =>
    obtain ⟨here, without⟩ := List.forall_mem_cons.1 without
    rw [List.cons_append, classBefore, here, Option.none_or]
    split
    · rfl
    · exact ih stops without

/-- **Class of a bean.**  Where the ancestors of a bean end at a bean without parent, its class is
the class of its merged definition, unless its line comes to a bean that names its parent as the
first one is named before it comes to a class; then the bean has no class, though its merged
definition has one.  This does not happen to a bean whose name stands for nothing or for a bean of
its identity. -/
theorem beanClass_eq_merged_iff {root : Bean}
    (last : (b :: ancestors ctx b).getLast? = some root) (isRoot : root.isChild = false) :
    (beanClass ctx b = (merged ctx b).className ↔ ¬ClassHidden ctx b) ∧
      (ClassHidden ctx b → beanClass ctx b = none ∧ (merged ctx b).className ≠ none) ∧
      ((∀ c, ctx.resolve? b.name = some c → c.id = b.id) →
        beanClass ctx b = (merged ctx b).className) := by
  have ends := lastParent_eq_none_iff.2 ⟨root, last, isRoot⟩
  have hidden : ClassHidden ctx b →
      beanClass ctx b = none ∧ (merged ctx b).className ≠ none := by
    rintro ⟨lower, upper, line, stops, without, q, hq, declared⟩
    obtain ⟨own, without⟩ := List.forall_mem_cons.1 without
    rw [beanClass_eq_classBefore ends, className_merged ends, line, own]
    refine ⟨classBefore_eq_none stops without, fun none => declared ?_⟩
    apply List.findSome?_eq_none_iff.1 none
    exact List.mem_cons_of_mem b (List.mem_append_right lower hq)
  have agree : ¬ClassHidden ctx b → beanClass ctx b = (merged ctx b).className := by
    intro shown
    rw [beanClass_eq_classBefore ends, className_merged ends, List.findSome?_cons]
    cases own : b.className with
    | some className => rfl
    | none =>
      rcases classBefore_eq_or b.name b.parent (ancestors ctx b) with
        same | ⟨-, lower, upper, line, stops, without, above⟩
      · exact same
      · exact absurd
          ⟨lower, upper, line, stops, List.forall_mem_cons.2 ⟨own, without⟩, above⟩ shown
  refine ⟨⟨fun same isHidden => ?_, agree⟩, hidden, fun own => agree ?_⟩
  · obtain ⟨none, some⟩ := hidden isHidden
    exact some (same ▸ none)
  · rintro ⟨lower, upper, line, stops, -, q, hq, -⟩
    obtain ⟨next, upper, rfl⟩ := List.exists_cons_of_ne_nil (List.ne_nil_of_mem hq)
    have walk := parentWalk_ancestors ctx b
    rw [line] at walk
    obtain ⟨name, named, found, new⟩ := walk.resolve?_of_append
    cases stops.symm.trans named
    exact new (List.mem_singleton.2 (own next found))

/-! ### A namesake above -/

/-- The bean `base` has a class, `middle` inherits from it, and `outer` has an inner bean that is
called `base` as well and inherits from `middle`. -/
def innerNamesake : Context :=
  let line : Nat → Location := .atLine "beans.xml"
  let inner : Declaration := ⟨"base", [], { parent := some "middle", location := line 5 }⟩
  let outer : Definition (Value Declaration) :=
    { className := some "Bar"
      properties := [⟨"part", .nested inner, line 4⟩]
      location := line 3 }
  { name := "beans.xml"
    kind := .config
    beans := [.named "beans.xml" ⟨"base", [], { className := some "Foo", location := line 1 }⟩,
      .named "beans.xml" ⟨"middle", [], { parent := some "base", location := line 2 }⟩,
      .named "beans.xml" ⟨"outer", [], outer⟩] }

/-- The inner bean has no class, though its merged definition has that of its namesake. -/
theorem beanClass_of_innerNamesake :
    ∃ outer inner base, innerNamesake.resolve? "outer" = some outer ∧ outer.inner = [inner] ∧
      (inner :: ancestors innerNamesake inner).getLast? = some base ∧ base.isChild = false ∧
      beanClass innerNamesake inner = none ∧ (merged innerNamesake inner).className = some "Foo" ∧
      ¬beanClass innerNamesake inner = (merged innerNamesake inner).className := by
  obtain ⟨outer, inner, middle, base, found, nested, last, isRoot, line, stops, without,
      withoutToo, declared, inherited⟩ :
      ∃ outer inner middle base, innerNamesake.resolve? "outer" = some outer ∧
        outer.inner = [inner] ∧ (inner :: ancestors innerNamesake inner).getLast? = some base ∧
        base.isChild = false ∧ ancestors innerNamesake inner = [middle, base] ∧
        middle.parent = some inner.name ∧ inner.className = none ∧ middle.className = none ∧
        base.className = some "Foo" ∧ (merged innerNamesake inner).className = some "Foo" :=
    ⟨_, _, _, _, rfl, rfl, rfl, rfl, rfl, rfl, rfl, rfl, rfl, rfl⟩
  obtain ⟨agree, missed, -⟩ := beanClass_eq_merged_iff last isRoot
  have hidden : ClassHidden innerNamesake inner := by
    refine ⟨[middle], [base], line, stops, ?_, base, List.mem_singleton_self _, ?_⟩
    · simp [without, withoutToo]
    · rw [declared]
      nofun
  exact ⟨outer, inner, base, found, nested, last, isRoot, (missed hidden).1, inherited,
    fun same => agree.1 same hidden⟩

end BeanWiring
