/-
# What a deep walk reaches

The references of a bean with those of everything that it depends on.  An edge from the bean
itself leads to a bean whose own edges are listed too.  An edge found inside an inner bean is
only credited to the bean around it: whether the edges of its target are listed depends on
whether the target is reached in another way.

Main statements:

* `references_deep_closed` : the direct edges of the bean, and those of the target of every
  edge that was not found inside an inner bean, are listed;
* `references_target_subset_iff` : when those of the target of any edge are listed.
-/
import BeanWiring.Proofs.Reference.Deep

namespace BeanWiring

variable {rules : List InterceptorRule} {ctx : Context} {b c : Bean}

/-! ## Edges by their keys -/

/-- Edges with the same beans at their ends are equal if their keys are. -/
theorem Reference.eq_of_key {e f : Reference} (source : e.source = f.source)
    (target : e.target = f.target) (key : e.key = f.key) : e = f := by
  obtain ⟨_, _, _, _, _, _⟩ := e
  obtain ⟨_, _, _, _, _, _⟩ := f
  simp only [Reference.key, ReferenceKey.mk.injEq] at source target key
  obtain ⟨kind, -, member, -, context, isInner⟩ := key
  rw [source, target, kind, member, context, isInner]

/-- Where beans are told apart by their identities, so are settled edges by their keys. -/
theorem Walk.IsSettled.mem_of_has {w : Walk} (settled : w.IsSettled ctx) (named : ctx.IsNamed)
    {e : Reference} (findsSource : ctx.Finds e.source) (findsTarget : ctx.Finds e.target)
    (there : w.edges.has e.key = true) : e ∈ w.edges.toList := by
  obtain ⟨f, hf, same⟩ := EdgeSet.exists_of_has there
  have ends := settled f hf
  have source : f.source = e.source :=
    named.eq_of_id ends.findsSource findsSource (congrArg ReferenceKey.source same)
  have target : f.target = e.target :=
    named.eq_of_id ends.findsTarget findsTarget (congrArg ReferenceKey.target same)
  rwa [Reference.eq_of_key source target same] at hf

/-- A walk that covers a bean lists the references of the bean. -/
theorem Walk.Covers.references_subset {w : Walk} (covers : w.Covers rules ctx c)
    (settled : w.IsSettled ctx) (named : ctx.IsNamed) (finds : ctx.Finds c) :
    references rules ctx false (.bean c) ⊆ w.edges.toList := by
  intro e he
  have direct := mem_directEdges_of_mem_references he
  obtain ⟨source, findsTarget⟩ := ends_of_mem_directEdges direct
  exact settled.mem_of_has named (source ▸ finds) findsTarget (covers e direct)

/-! ## The walk from a bean -/

/-- A deep walk starts with the bean as the only one met. -/
theorem walk_eq_expand (rules : List InterceptorRule) (ctx : Context) (b : Bean) :
    walk rules ctx true (.bean b)
      = expand rules ctx (ctx.allBeans.length + 2) (({} : Walk).meet b) b := by
  rw [walk, if_pos rfl, visitDeep, if_neg (List.not_mem_nil)]
  rfl

theorem hasRoom_start (finds : ctx.Finds b) :
    (({} : Walk).meet b).HasRoom ctx (ctx.allBeans.length + 2) := by
  refine ⟨List.nodup_singleton _, ?_, by omega⟩
  exact List.cons_subset.2 ⟨List.mem_map_of_mem finds.mem_allBeans, List.nil_subset _⟩

theorem isSettled_start (ctx : Context) (b : Bean) : (({} : Walk).meet b).IsSettled ctx :=
  fun e he => by cases he

/-- A deep walk starts with the bean as the only one met, and ends with its edges recorded. -/
theorem advances_walk (rules : List InterceptorRule) (finds : ctx.Finds b) :
    (({} : Walk).meet b).Advances rules ctx (walk rules ctx true (.bean b)) ∧
      (walk rules ctx true (.bean b)).Covers rules ctx b := by
  rw [walk_eq_expand]
  exact Walk.advances_expand _ (hasRoom_start finds) (isSettled_start ctx b) finds
    List.mem_cons_self

/-- A bean that the walk met is the bean it started from, or the target of an edge that was
not found inside an inner bean; and the walk covers it. -/
theorem covers_of_met (named : ctx.IsNamed) (findsB : ctx.Finds b) (findsC : ctx.Finds c)
    (met : c.id ∈ (walk rules ctx true (.bean b)).visited) :
    (c = b ∨ ∃ e ∈ references rules ctx true (.bean b), e.isInner = false ∧ e.target = c) ∧
      (walk rules ctx true (.bean b)).Covers rules ctx c := by
  obtain ⟨advances, covers⟩ := advances_walk rules findsB
  by_cases start : c.id = b.id
  · have same := named.eq_of_id findsC findsB start
    exact ⟨.inl same, same ▸ covers⟩
  · -- Only the bean itself was met before the walk, so `c` was met on the way.
    have new : c.id ∉ (({} : Walk).meet b).visited := fun old => start (List.mem_singleton.1 old)
    obtain ⟨e, he, outer, target, done⟩ := advances.met c.id met new
    have same := named.eq_of_id (advances.settled e he).findsTarget findsC target
    exact ⟨.inr ⟨e, he, outer, same⟩, same ▸ done⟩

/-- What a walk that has met a bean says of its references. -/
theorem references_subset_of_met (named : ctx.IsNamed) (findsB : ctx.Finds b)
    (findsC : ctx.Finds c) (met : c.id ∈ (walk rules ctx true (.bean b)).visited) :
    references rules ctx false (.bean c) ⊆ references rules ctx true (.bean b) :=
  (covers_of_met named findsB findsC met).2.references_subset (advances_walk rules findsB).1.settled
    named findsC

/-! ## Closure -/

/-- **Closure.**  The deep references of a bean list its direct references and, with every edge
that was not found inside an inner bean, the direct references of its target. -/
theorem references_deep_closed (rules : List InterceptorRule) (named : ctx.IsNamed)
    (finds : ctx.Finds b) :
    references rules ctx false (.bean b) ⊆ references rules ctx true (.bean b) ∧
      ∀ e ∈ references rules ctx true (.bean b), e.isInner = false →
        references rules ctx false (.bean e.target) ⊆ references rules ctx true (.bean b) := by
  have advances := (advances_walk rules finds).1
  constructor
  · exact references_subset_of_met named finds finds (advances.visited.subset List.mem_cons_self)
  · intro e he outer
    have ends := advances.settled e he
    exact references_subset_of_met named finds ends.findsTarget (ends.target outer)

/-! ### A cycle through an inner bean -/

namespace RoundTrip

/-- A bean with one property. -/
def declare (name : String) (value : Value Declaration) (line : Nat) : Declaration :=
  ⟨name, [], { className := some "Foo", location := .atLine "beans.xml" line
               properties := [⟨"next", value, .atLine "beans.xml" line⟩] }⟩

/-- A bean whose inner bean refers to `dep`. -/
def outer : Bean :=
  .named "beans.xml" (declare "outer" (.nested (declare "" (.reference "dep" false) 2)) 1)

/-- A bean that refers to `back`. -/
def dep : Bean := .named "beans.xml" (declare "dep" (.reference "back" false) 5)

/-- A bean that refers to `outer`. -/
def back : Bean := .named "beans.xml" (declare "back" (.reference "outer" false) 6)

/-- The beans `outer`, `dep` and `back`, each of which leads to the next. -/
def context : Context := { name := "beans.xml", kind := .config, beans := [outer, dep, back] }

theorem isNamed_context : context.IsNamed := by
  intro b hb
  simp only [context, Context.allBeans, beansOfComponents, List.append_nil, List.mem_cons,
    List.not_mem_nil, or_false] at hb
  rcases hb with rfl | rfl | rfl <;> exact ⟨_, rfl⟩

theorem references_dep :
    references [] context false (.bean dep)
      = [⟨.standard, dep, .property "next", back, "beans.xml", false⟩] := by
  rw [references_eq_directEdges (by decide)]
  rfl

theorem references_back :
    references [] context false (.bean back)
      = [⟨.standard, back, .property "next", outer, "beans.xml", false⟩] := by
  rw [references_eq_directEdges (by decide)]
  rfl

theorem references_outer :
    references [] context false (.bean outer)
      = [⟨.standard, outer, .bean, dep, "beans.xml", true⟩] := by
  have credited : directEdges [] context outer
      = [⟨.standard, outer, .bean, dep, "beans.xml", true⟩] := by
    rw [directEdges, creditedEdges_inner (by decide)]
    rfl
  rw [references_eq_directEdges (by rw [credited]; exact List.nodup_singleton _), credited]

/-- From `dep` the walk comes round to `outer`, whose inner reference it lists. -/
theorem inner_reference_of_dep :
    ⟨.standard, outer, .bean, dep, "beans.xml", true⟩
      ∈ references [] context true (.bean dep) := by
  obtain ⟨own, onwards⟩ := references_deep_closed [] isNamed_context ⟨"dep", rfl⟩
  have toBack := own (by rw [references_dep]; exact List.mem_cons_self)
  have toOuter := onwards _ toBack rfl (by rw [references_back]; exact List.mem_cons_self)
  exact onwards _ toOuter rfl (by rw [references_outer]; exact List.mem_cons_self)

end RoundTrip

/-! ## Targets reached through inner beans -/

/-- **Targets.**  The direct references of the target of an edge are among the deep references
of a bean in three cases only: there are none, the target is the bean itself, or some edge that
was not found inside an inner bean leads to it. -/
theorem references_target_subset_iff (rules : List InterceptorRule) (named : ctx.IsNamed)
    (finds : ctx.Finds b) {e : Reference} (listed : e ∈ references rules ctx true (.bean b)) :
    references rules ctx false (.bean e.target) ⊆ references rules ctx true (.bean b) ↔
      references rules ctx false (.bean e.target) = [] ∨ e.target = b ∨
        ∃ f ∈ references rules ctx true (.bean b), f.isInner = false ∧ f.target = e.target := by
  have advances := (advances_walk rules finds).1
  have findsTarget := (advances.settled e listed).findsTarget
  constructor
  · intro subset
    cases direct : references rules ctx false (.bean e.target) with
    | nil => exact .inl rfl
    | cons f rest =>
      -- The walk lists an edge of the target, so it has met the target.
      have hf : f ∈ references rules ctx false (.bean e.target) := by
        rw [direct]
        exact List.mem_cons_self
      have source := (ends_of_mem_directEdges (mem_directEdges_of_mem_references hf)).1
      have met := (advances.settled f (subset hf)).source
      rw [source] at met
      exact .inr (covers_of_met named finds findsTarget met).1
  · rintro (none | same | ⟨f, hf, outer, same⟩)
    · rw [none]
      exact List.nil_subset _
    · rw [same]
      exact references_subset_of_met named finds finds
        (advances.visited.subset List.mem_cons_self)
    · rw [← same]
      have ends := advances.settled f hf
      exact references_subset_of_met named finds ends.findsTarget (ends.target outer)

/-- From `outer` the walk lists the inner reference to `dep`, but not that of `dep` to `back`:
no other edge leads to `dep`, as the walk meets no bean but `outer`. -/
theorem RoundTrip.reference_of_dep_not_mem :
    ⟨.standard, outer, .bean, dep, "beans.xml", true⟩
        ∈ references [] context true (.bean outer) ∧
      ⟨.standard, dep, .property "next", back, "beans.xml", false⟩
        ∉ references [] context true (.bean outer) := by
  have finds : context.Finds outer := ⟨"outer", rfl⟩
  have advances := (advances_walk [] finds).1
  have listed : ⟨.standard, outer, .bean, dep, "beans.xml", true⟩
      ∈ references [] context true (.bean outer) := by
    refine references_subset_of_met isNamed_context finds finds
      (advances.visited.subset List.mem_cons_self) ?_
    rw [references_outer]
    exact List.mem_cons_self
  refine ⟨listed, fun expanded => ?_⟩
  have subset :
      references [] context false (.bean dep) ⊆ references [] context true (.bean outer) := by
    rw [references_dep]
    exact List.cons_subset.2 ⟨expanded, List.nil_subset _⟩
  have onlyOuter : (walk [] context true (.bean outer)).visited = [outer.id] := rfl
  rcases (references_target_subset_iff [] isNamed_context finds listed).1 subset with
    none | same | ⟨f, hf, outside, same⟩
  · rw [references_dep] at none
    cases none
  · exact absurd (congrArg Bean.name same) (by decide)
  · have met := (advances.settled f hf).target outside
    rw [same, onlyOuter, List.mem_singleton] at met
    exact absurd met (by decide)

end BeanWiring
