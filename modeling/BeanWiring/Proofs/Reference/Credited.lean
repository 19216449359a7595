/-
# References of inner beans

The edges that a direct walk finds inside inner beans.  The walk over a bean credits to it what
the walks over its inner beans find.  Each of those has in turn credited what it found in beans
nested deeper, and each leaves out the edges that lead to the bean it is about.

A name only stands for a bean that is not nested in another one, so nothing is left out on the
way but what leads to the outermost bean.

Main statements:

* `leadsTo_inner_iff` : what is credited to a bean, from one level to the next;
* `leadsTo_innerDeep_iff`, `inner_references_iff` : what is credited to a bean, from all levels at
  once.
-/
import BeanWiring.Proofs.Lookup.Memo
import BeanWiring.Proofs.Reference.Closure

namespace BeanWiring

variable {rules : List InterceptorRule} {ctx : Context} {b : Bean}

/-! ## Direct references -/

/-- The direct references of a bean are the edges of the walk over its nest. -/
theorem references_eq_directWalk (rules : List InterceptorRule) (ctx : Context) (b : Bean) :
    references rules ctx false (.bean b) = (directWalk rules ctx b.nest).edges.toList :=
  EdgeSet.toList_foldl_insert (directWalk rules ctx b.nest).edges.nodup

/-- The direct references of a bean are its direct edges. -/
theorem mem_references_direct_iff (named : ctx.IsNamed) {e : Reference} :
    e ∈ references rules ctx false (.bean b) ↔ e ∈ directEdges rules ctx b := by
  refine ⟨mem_directEdges_of_mem_references, fun direct => ?_⟩
  have recorded : (directWalk rules ctx b.nest).edges.has e.key = true := by
    rw [edges_directWalk, EdgeSet.has_foldl_insert]
    exact .inr (List.mem_map_of_mem direct)
  obtain ⟨f, listed, key⟩ := EdgeSet.exists_of_has recorded
  rw [← references_eq_directWalk] at listed
  -- The edge of this key that was recorded starts and ends where this one does.
  obtain ⟨sourceE, findsE⟩ := ends_of_mem_directEdges direct
  obtain ⟨sourceF, findsF⟩ := ends_of_mem_directEdges (mem_directEdges_of_mem_references listed)
  have target := named.eq_of_id findsF findsE (congrArg ReferenceKey.target key)
  rwa [Reference.eq_of_key (sourceF.trans sourceE.symm) target key] at listed

/-! ## What is credited -/

/-- What a bean is credited for is what its inner beans refer to, but for the bean itself. -/
theorem mem_creditedEdges_iff {e : Reference} : e ∈ creditedEdges rules ctx b b.nest.inner ↔
    ∃ i ∈ b.inner, ∃ f ∈ references rules ctx false (.bean i),
      f.target.id ≠ b.id ∧ f.creditedTo b = e := by
  rw [Bean.nest_eq, Nest.inner, creditedEdges, List.flatMap_map, List.mem_flatMap]
  simp only [← references_eq_directWalk, List.mem_map, List.mem_filter, decide_eq_true_iff,
    and_assoc]

/-- A direct reference found inside an inner bean is a credited one. -/
theorem credited_of_mem_references {e : Reference}
    (listed : e ∈ references rules ctx false (.bean b)) (inside : e.isInner = true) :
    e ∈ creditedEdges rules ctx b b.nest.inner := by
  rcases List.mem_append.1 (mem_directEdges_of_mem_references listed) with link | credited
  · obtain ⟨l, -, made⟩ := List.mem_filterMap.1 link
    rw [(edgeOf?_eq_some made).2.2] at inside
    cases inside
  · exact credited

/-- The direct references of a bean include one of a kind to a target, found inside one of its
inner beans or not. -/
def LeadsTo (rules : List InterceptorRule) (ctx : Context) (b : Bean) (inside : Bool)
    (kind : ReferenceKind) (target : Bean) : Prop :=
  ∃ e ∈ references rules ctx false (.bean b),
    e.isInner = inside ∧ e.kind = kind ∧ e.target = target

section Step

variable {inside : Bool} {kind : ReferenceKind} {target : Bean}

/-- What a bean refers to is what some name stands for. -/
theorem LeadsTo.finds (h : LeadsTo rules ctx b inside kind target) : ctx.Finds target := by
  obtain ⟨e, listed, -, -, rfl⟩ := h
  exact (ends_of_mem_directEdges (mem_directEdges_of_mem_references listed)).2

/-- From one level to the next: a bean is credited for what its inner beans refer to, and for
what these are credited for, but not for references to the bean itself. -/
theorem leadsTo_inner_iff (named : ctx.IsNamed) : LeadsTo rules ctx b true kind target ↔
    target.id ≠ b.id ∧ ∃ i ∈ b.inner,
      LeadsTo rules ctx i false kind target ∨ LeadsTo rules ctx i true kind target := by
  constructor
  · rintro ⟨e, listed, isInner, rfl, rfl⟩
    obtain ⟨i, direct, f, found, other, rfl⟩ :=
      mem_creditedEdges_iff.1 (credited_of_mem_references listed isInner)
    refine ⟨other, i, direct, ?_⟩
    cases level : f.isInner with
    | false => exact .inl ⟨f, found, level, rfl, rfl⟩
    | true => exact .inr ⟨f, found, level, rfl, rfl⟩
  · rintro ⟨other, i, direct, found⟩
    have crediting : ∀ f ∈ references rules ctx false (.bean i), f.kind = kind →
        f.target = target → LeadsTo rules ctx b true kind target := by
      rintro f inside rfl rfl
      have credited := mem_creditedEdges_iff.2 ⟨i, direct, f, inside, other, rfl⟩
      have listed := (mem_references_direct_iff named).2 (List.mem_append_right _ credited)
      exact ⟨f.creditedTo b, listed, rfl, rfl, rfl⟩
    rcases found with ⟨f, own, -, sameKind, sameTarget⟩ | ⟨f, deeper, -, sameKind, sameTarget⟩
    · exact crediting f own sameKind sameTarget
    · exact crediting f deeper sameKind sameTarget

/-- No name stands for a bean that is nested in another one. -/
theorem Context.Finds.id_ne_of_inner (named : ctx.IsNamed) (finds : ctx.Finds target) {i : Bean}
    (nested : i ∈ b.inner) : target.id ≠ i.id := by
  obtain ⟨resource, id⟩ := named target finds.mem_allBeans
  rw [id, Bean.id_of_mem_inner nested]
  exact nofun

end Step

/-! ## All levels at once -/

/-- A bean is credited for a reference exactly if some bean nested in it, at any depth, has it as
its own, unless it leads to the bean itself. -/
theorem leadsTo_innerDeep_iff (rules : List InterceptorRule) (named : ctx.IsNamed) (b : Bean)
    (kind : ReferenceKind) (target : Bean) : LeadsTo rules ctx b true kind target ↔
      (∃ i ∈ b.innerDeep, LeadsTo rules ctx i false kind target) ∧ target.id ≠ b.id := by
  induction b using Bean.inner_induction with
  | step b ih =>
    rw [leadsTo_inner_iff named]
    constructor
    · rintro ⟨other, i, direct, own | deeper⟩
      · exact ⟨⟨i, Bean.mem_innerDeep_iff.2 ⟨i, direct, .inl rfl⟩, own⟩, other⟩
      · obtain ⟨⟨j, within, own⟩, -⟩ := (ih i direct).1 deeper
        exact ⟨⟨j, Bean.mem_innerDeep_iff.2 ⟨i, direct, .inr within⟩, own⟩, other⟩
    · rintro ⟨⟨j, within, own⟩, other⟩
      obtain ⟨i, direct, rfl | below⟩ := Bean.mem_innerDeep_iff.1 within
      · exact ⟨other, j, direct, .inl own⟩
      · -- The bean in between leaves out references to itself, but no name stands for it.
        have between := own.finds.id_ne_of_inner named direct
        exact ⟨other, i, direct, .inr ((ih i direct).2 ⟨⟨j, below, own⟩, between⟩)⟩

/-- **Credit.**  The direct references that a bean owes to its inner beans are references of the
bean as a whole.  There is one of a kind to a target exactly if some bean nested in it, at any
depth, has one of its own, unless the target is the bean itself. -/
theorem inner_references_iff (rules : List InterceptorRule) (named : ctx.IsNamed) (b : Bean) :
    (∀ e ∈ references rules ctx false (.bean b), e.isInner = true →
      e.source = b ∧ e.member = .bean) ∧
    ∀ kind target, LeadsTo rules ctx b true kind target ↔
      (∃ i ∈ b.innerDeep, LeadsTo rules ctx i false kind target) ∧ target.id ≠ b.id := by
  refine ⟨?_, leadsTo_innerDeep_iff rules named b⟩
  intro e listed inside
  obtain ⟨i, -, f, -, -, rfl⟩ :=
    mem_creditedEdges_iff.1 (credited_of_mem_references listed inside)
  exact ⟨rfl, rfl⟩

/-! ### Three levels -/

namespace Levels

open RoundTrip (declare)

/-- The innermost declaration, which mentions `dep` and the outermost bean. -/
def core : Declaration :=
  declare "" (.list [.reference "dep" false, .reference "outer" false]) 3

/-- The bean `outer`, with a bean nested in it in which `core` is nested. -/
def outer : Bean :=
  .named "beans.xml" (declare "outer" (.nested (declare "" (.nested core) 2)) 1)

/-- The bean that is mentioned two levels below `outer`. -/
def dep : Bean := .named "beans.xml" (declare "dep" .null 5)

/-- The beans `outer` and `dep`. -/
def context : Context := { name := "beans.xml", kind := .config, beans := [outer, dep] }

theorem isNamed_levels : context.IsNamed := by
  intro b hb
  simp only [context, Context.allBeans, beansOfComponents, List.append_nil, List.mem_cons,
    List.not_mem_nil, or_false] at hb
  rcases hb with rfl | rfl <;> exact ⟨_, rfl⟩

/-- The bean that `core` describes. -/
def coreBean : Bean := core.innerBean (.inner outer.id 2)

theorem coreBean_mem : coreBean ∈ outer.innerDeep := by
  refine Bean.mem_innerDeep_iff.2 ⟨_, List.mem_cons_self, .inr ?_⟩
  exact Bean.mem_innerDeep_iff.2 ⟨_, List.mem_cons_self, .inl rfl⟩

theorem references_coreBean :
    references [] context false (.bean coreBean)
      = [⟨.standard, coreBean, .property "next", dep, "beans.xml", false⟩,
        ⟨.standard, coreBean, .property "next", outer, "beans.xml", false⟩] := by
  rw [references_eq_directEdges (by decide)]
  rfl

/-- The reference to `dep` reaches `outer` through both levels, that to `outer` does not. -/
theorem leadsTo_dep_of_outer :
    LeadsTo [] context outer true .standard dep ∧
      ¬LeadsTo [] context outer true .standard outer := by
  obtain ⟨-, credited⟩ := inner_references_iff [] isNamed_levels outer
  constructor
  · refine (credited .standard dep).2 ⟨⟨coreBean, coreBean_mem, ?_⟩, by decide⟩
    refine ⟨⟨.standard, coreBean, .property "next", dep, "beans.xml", false⟩, ?_, rfl, rfl, rfl⟩
    rw [references_coreBean]
    exact List.mem_cons_self
  · intro toItself
    exact ((credited .standard outer).1 toItself).2 rfl

end Levels

end BeanWiring
