/-
# Deep walks and the order of declarations

The references of a deep walk, with and without regard to the order in which it meets the
beans.  The order tells in one place only: the edges of a bean to its further ancestors are
missing if the parent of the bean was met before the bean.

Main statement: `ancestor_references_iff`, which beans a deep walk meets, which edges to
ancestors it lists, and that no other edge depends on the order.
-/
import BeanWiring.Proofs.Reference.Gains

namespace BeanWiring

variable {rules : List InterceptorRule} {ctx : Context} {b c : Bean}

/-! ## The beans that are met -/

theorem gains_walk (rules : List InterceptorRule) (named : ctx.IsNamed) (finds : ctx.Finds b) :
    (({} : Walk).meet b).Gains rules ctx b (Walk.Owns rules ctx [b.id] b)
      (walk rules ctx true (.bean b)) := by
  rw [walk_eq_expand]
  exact Walk.gains_expand named _ (hasRoom_start finds) (isSettled_start ctx b) finds

/-- The references of a deep walk are those listed of the beans that it met. -/
theorem mem_references_deep_iff (named : ctx.IsNamed) (finds : ctx.Finds b) {e : Reference} :
    e ∈ references rules ctx true (.bean b) ↔
      ctx.Finds e.source ∧ e.source.id ∈ (walk rules ctx true (.bean b)).visited ∧
        Lists rules ctx (walk rules ctx true (.bean b)).visited e := by
  have gains := gains_walk rules named finds
  have once := gains.once (List.nodup_singleton _)
  have start : ∀ {c : Bean}, c.id ∈ [b.id] ↔ c.id = b.id := List.mem_singleton
  have empty : e ∉ (({} : Walk).meet b).edges.toList := fun he => by cases he
  rw [references, gains.mem_iff, or_iff_right empty]
  constructor
  · rintro (⟨source, lists⟩ | ⟨findsSource, -, met, lists⟩)
    · have inside : e.source.id ∈ [b.id] := start.2 (congrArg Bean.id source)
      exact ⟨source ▸ finds, gains.visited.subset inside,
        (lists_iff gains.visited once inside).2 lists⟩
    · exact ⟨findsSource, met, lists⟩
  · rintro ⟨findsSource, met, lists⟩
    by_cases inside : e.source.id ∈ [b.id]
    · exact .inl ⟨named.eq_of_id findsSource finds (start.1 inside),
        (lists_iff gains.visited once inside).1 lists⟩
    · exact .inr ⟨findsSource, inside, met, lists⟩

/-- A deep walk meets exactly the beans that are reached. -/
theorem met_iff_reaches (named : ctx.IsNamed) (finds : ctx.Finds b) (findsC : ctx.Finds c) :
    c.id ∈ (walk rules ctx true (.bean b)).visited ↔ Reaches rules ctx b c := by
  have gains := gains_walk rules named finds
  constructor
  · intro met
    by_cases start : c.id = b.id
    · rw [named.eq_of_id findsC finds start]
      exact .start
    · exact gains.reached c findsC (fun old => start (List.mem_singleton.1 old)) met
  · intro reaches
    induction reaches with
    | start => exact gains.visited.subset List.mem_cons_self
    | @onward d e reached edge outer ih =>
      -- The walk lists the edge, as it met the bean that the edge leaves.
      have findsD := reached.finds finds
      have source := (ends_of_mem_mergedEdges edge).1
      have listed : e ∈ references rules ctx true (.bean b) :=
        (mem_references_deep_iff named finds).2
          ⟨source ▸ findsD, source ▸ ih findsD, .inl (source ▸ edge)⟩
      exact (gains.settled e listed).target outer

/-! ## Ancestors -/

theorem lists_toAncestor_iff {visited : List BeanId} (finds : ctx.Finds c) {a : Bean}
    (above : a ∈ ancestors ctx c) :
    Lists rules ctx visited (toAncestor ctx c a) ↔
      (ancestors ctx c).head? = some a ∨ ¬ParentFirst ctx visited c := by
  constructor
  · rintro (edge | ⟨parentLast, -⟩)
    · obtain ⟨name, parent, found, other⟩ := parent_of_toAncestor_mem edge
      obtain ⟨rest, chain, -⟩ := ancestors_eq_cons finds parent found other
      rw [chain]
      exact .inl rfl
    · exact .inr parentLast
  · rintro (head | parentLast)
    · obtain ⟨name, parent, found⟩ := parent_of_head?_ancestors head
      exact .inl (toAncestor_mem_mergedEdges parent found (id_ne_of_mem_ancestors above))
    · exact .inr ⟨parentLast, a, above, rfl⟩

/-- **Order.**  A deep walk meets the beans that are reached, in whatever order.  Of such a
bean it lists the edge to its parent, and those to its further ancestors exactly if the parent
was not met before the bean.  No other edge depends on the order. -/
theorem ancestor_references_iff (rules : List InterceptorRule) (named : ctx.IsNamed)
    (finds : ctx.Finds b) :
    (∀ c, ctx.Finds c →
      (c.id ∈ (walk rules ctx true (.bean b)).visited ↔ Reaches rules ctx b c)) ∧
    (∀ c, Reaches rules ctx b c → ∀ a ∈ ancestors ctx c,
      (toAncestor ctx c a ∈ references rules ctx true (.bean b) ↔
        (ancestors ctx c).head? = some a ∨
          ¬ParentFirst ctx (walk rules ctx true (.bean b)).visited c)) ∧
    ∀ e, (∀ a ∈ (ancestors ctx e.source).tail, e ≠ toAncestor ctx e.source a) →
      (e ∈ references rules ctx true (.bean b) ↔
        Reaches rules ctx b e.source ∧ e ∈ mergedEdges rules ctx e.source) := by
  refine ⟨fun c findsC => met_iff_reaches named finds findsC, ?_, ?_⟩
  · intro c reaches a above
    have findsC := reaches.finds finds
    have met := (met_iff_reaches named finds findsC).2 reaches
    rw [mem_references_deep_iff named finds, ← lists_toAncestor_iff findsC above]
    exact ⟨fun h => h.2.2, fun lists => ⟨findsC, met, lists⟩⟩
  · intro e notFurther
    rw [mem_references_deep_iff named finds]
    constructor
    · rintro ⟨findsSource, met, edge | ⟨-, a, above, same⟩⟩
      · exact ⟨(met_iff_reaches named finds findsSource).1 met, edge⟩
      · -- The edge leads to the first of the ancestors, which is the parent.
        refine ⟨(met_iff_reaches named finds findsSource).1 met, ?_⟩
        have head : (ancestors ctx e.source).head? = some a := by
          cases chain : ancestors ctx e.source with
          | nil =>
            rw [chain] at above
            cases above
          | cons p rest =>
            rw [chain] at above notFurther
            rcases List.mem_cons.1 above with rfl | further
            · rfl
            · exact absurd same (notFurther a further)
        obtain ⟨name, parent, found⟩ := parent_of_head?_ancestors head
        rw [same]
        exact toAncestor_mem_mergedEdges parent found (id_ne_of_mem_ancestors above)
    · rintro ⟨reaches, edge⟩
      have findsSource := reaches.finds finds
      exact ⟨findsSource, (met_iff_reaches named finds findsSource).2 reaches, .inl edge⟩

/-! ### Three generations -/

/-- The start of a walk is met first, so its parent is not met before it. -/
theorem not_parentFirst_start (named : ctx.IsNamed) (finds : ctx.Finds b) :
    ¬ParentFirst ctx (walk rules ctx true (.bean b)).visited b := by
  have gains := gains_walk rules named finds
  rw [parentFirst_iff gains.visited (gains.once (List.nodup_singleton _)) List.mem_cons_self]
  rintro ⟨p, -, before⟩
  have short : 2 ≤ 1 := before.length_le
  omega

/-- In a walk that starts from the parent of a bean, the parent is met before the bean. -/
theorem parentFirst_of_start (named : ctx.IsNamed) (finds : ctx.Finds b)
    (parent : (ancestors ctx c).head? = some b) (reached : Reaches rules ctx b c) :
    ParentFirst ctx (walk rules ctx true (.bean b)).visited c := by
  have met := (met_iff_reaches named finds (reached.finds finds)).2 reached
  have other := id_ne_of_mem_ancestors (List.mem_of_mem_head? parent)
  obtain ⟨new, visited⟩ := (gains_walk rules named finds).visited
  rw [← visited] at met ⊢
  have inNew : c.id ∈ new :=
    (List.mem_append.1 met).resolve_right fun start => other (List.mem_singleton.1 start)
  exact ⟨b, parent, (List.singleton_sublist.2 inNew).append (List.Sublist.refl [b.id])⟩

namespace Generations

/-- A bean that may inherit from another and depend on another. -/
def declare (name : String) (parent : Option String) (dependsOn : List String) (line : Nat) :
    Bean :=
  .named "beans.xml"
    ⟨name, [], { className := some "Foo", parent, dependsOn
                 location := .atLine "beans.xml" line }⟩

/-- The bean `child`, below `middle`. -/
def child : Bean := declare "child" (some "middle") [] 1

/-- The bean `middle`, below `root`; it depends on its own child. -/
def middle : Bean := declare "middle" (some "root") ["child"] 2

/-- The bean `root`, which inherits nothing. -/
def root : Bean := declare "root" none [] 3

/-- The three generations. -/
def context : Context := { name := "beans.xml", kind := .config, beans := [child, middle, root] }

theorem isNamed_generations : context.IsNamed := by
  intro b hb
  simp only [context, Context.allBeans, beansOfComponents, List.append_nil, List.mem_cons,
    List.not_mem_nil, or_false] at hb
  rcases hb with rfl | rfl | rfl <;> exact ⟨_, rfl⟩

theorem reaches_child : Reaches [] context middle child := by
  have edge : ⟨.dependsOn, middle, .bean, child, "beans.xml", false⟩
      ∈ mergedEdges [] context middle := by
    refine mem_mergedEdges_iff.2 (.inr (.inl ⟨⟨.bean, ⟨.dependsOn, "child"⟩⟩, ?_, rfl⟩))
    exact List.mem_cons_self
  exact Reaches.start.onward edge rfl

/-- Both walks come to `child`, but only that from `child` lists its edge to `root`. -/
theorem reference_to_root :
    Reaches [] context middle child ∧
      toAncestor context child root ∉ references [] context true (.bean middle) ∧
      toAncestor context child root ∈ references [] context true (.bean child) := by
  have above : root ∈ ancestors context child := List.mem_cons_of_mem middle List.mem_cons_self
  have further : (ancestors context child).head? ≠ some root := fun direct =>
    absurd (congrArg (Option.map Bean.name) direct) (by decide)
  have findsChild : context.Finds child := ⟨"child", rfl⟩
  have findsMiddle : context.Finds middle := ⟨"middle", rfl⟩
  have fromMiddle := (ancestor_references_iff [] isNamed_generations findsMiddle).2.1
  have fromChild := (ancestor_references_iff [] isNamed_generations findsChild).2.1
  refine ⟨reaches_child, ?_, ?_⟩
  · rw [fromMiddle child reaches_child root above]
    rintro (direct | parentLast)
    · exact further direct
    · exact parentLast (parentFirst_of_start isNamed_generations findsMiddle rfl reaches_child)
  · rw [fromChild child .start root above]
    exact .inr (not_parentFirst_start isNamed_generations findsChild)

end Generations

end BeanWiring
