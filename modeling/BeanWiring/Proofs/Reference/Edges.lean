/-
# The direct edges of a bean

The edges that a direct walk lists, told without a walk: the edges that the links of the bean
make, and those found inside its inner beans, credited to it.

Main statements:

* `edges_directWalk` : the walk lists these edges, one of each key;
* `ends_of_mem_directEdges` : each of them leads from the bean to a bean that a name stands for;
* `namedReferences_merged` : what a definition refers to by name it also refers to once
  everything inherited is laid under it.
-/
import Mathlib.Data.List.Basic
import BeanWiring.Proofs.Lookup.Names
import BeanWiring.Reference.Walk

namespace BeanWiring

/-! ## Inserting many edges -/

namespace EdgeSet

variable {s : EdgeSet} {r e : Reference} {es : List Reference} {k : ReferenceKey}

/-- The key of an edge that is in the set is there. -/
theorem has_of_mem (h : e ∈ s.toList) : s.has e.key = true :=
  has_iff.2 (List.mem_map_of_mem h)

/-- A key that is there is that of an edge in the set. -/
theorem exists_of_has (h : s.has k = true) : ∃ e ∈ s.toList, e.key = k :=
  List.mem_map.1 (has_iff.1 h)

/-- A new edge adds its key to those there were. -/
theorem has_insert : (s.insert r).has k = true ↔ s.has k = true ∨ k = r.key := by
  rw [has_iff, has_iff, mem_keys_insert]

/-- Nothing is lost by an insertion. -/
theorem mem_insert_of_mem (h : e ∈ s.toList) : e ∈ (s.insert r).toList := by
  rw [toList_insert, Keyed.putNew]
  split
  · exact h
  · exact List.mem_append_left _ h

/-- An edge in the set after an insertion was there before or is the new one. -/
theorem mem_or_eq_of_mem_insert (h : e ∈ (s.insert r).toList) : e ∈ s.toList ∨ e = r := by
  rw [toList_insert, Keyed.putNew] at h
  split at h
  · exact .inl h
  · rwa [List.mem_append, List.mem_singleton] at h

/-- Where the key of an edge is free, the edge is inserted. -/
theorem mem_insert_self (new : ¬s.has r.key = true) : r ∈ (s.insert r).toList := by
  rw [toList_insert, Keyed.putNew, if_neg]
  · exact List.mem_append_right _ (List.mem_singleton_self r)
  · intro taken
    refine new (has_iff.2 ?_)
    simpa [Keyed.has] using taken

/-- Where the key of an edge is taken, the edge is not inserted. -/
theorem insert_of_has (h : s.has r.key = true) : s.insert r = s := by
  rw [insert, dif_pos h]

/-- The keys after some insertions are those there were and those of the new edges. -/
theorem has_foldl_insert :
    (es.foldl insert s).has k = true ↔ s.has k = true ∨ k ∈ es.map Reference.key := by
  induction es generalizing s with
  | nil => simp
  | cons r es ih =>
    rw [List.foldl_cons, ih, has_insert, List.map_cons, List.mem_cons, or_assoc]

/-- Insertions drop no edge. -/
theorem mem_foldl_insert_of_mem (h : e ∈ s.toList) : e ∈ (es.foldl insert s).toList := by
  induction es generalizing s with
  | nil => exact h
  | cons r es ih => exact ih (mem_insert_of_mem h)

/-- An edge in the set after some insertions was there before or is one of the new ones. -/
theorem mem_or_mem_of_mem_foldl_insert (h : e ∈ (es.foldl insert s).toList) :
    e ∈ s.toList ∨ e ∈ es := by
  induction es generalizing s with
  | nil => exact .inl h
  | cons r es ih =>
    rcases ih h with before | later
    · rcases mem_or_eq_of_mem_insert before with before | rfl
      · exact .inl before
      · exact .inr List.mem_cons_self
    · exact .inr (List.mem_cons_of_mem r later)

/-- Edges with keys of their own all come to stand at the end. -/
theorem toList_foldl_insert (once : ((s.toList ++ es).map Reference.key).Nodup) :
    (es.foldl insert s).toList = s.toList ++ es := by
  induction es generalizing s with
  | nil => exact (List.append_nil _).symm
  | cons r es ih =>
    have new : Keyed.has Reference.key r.key s.toList = false := by
      rw [List.map_append, List.nodup_append] at once
      have apart := once.2.2
      rw [Keyed.has, List.any_eq_false]
      intro e he
      have differ := apart _ (List.mem_map_of_mem he) _ (List.mem_map_of_mem List.mem_cons_self)
      simpa using differ
    have first : (s.insert r).toList = s.toList ++ [r] := by
      rw [toList_insert, Keyed.putNew, new]
      rfl
    rw [List.foldl_cons, ih, first, List.append_assoc, List.singleton_append]
    rwa [first, List.append_assoc, List.singleton_append]

end EdgeSet

/-! ## The edge of a link -/

/-- The edge that a link makes.  There is none if the name is not found, or if the link is one
of the bean as a whole and its name stands for the bean itself. -/
def edgeOf? (ctx : Context) (source : Bean) (l : Link) : Option Reference :=
  (ctx.resolve? l.reference.beanName).bind fun target =>
    if l.member = .bean ∧ source.id = target.id then none
    else some ⟨l.reference.kind, source, l.member, target, ctx.name, false⟩

section Links

variable {ctx : Context} {source : Bean} {l : Link} {e : Reference}

/-- An edge of a link leads from the bean to the bean that the name stands for. -/
theorem edgeOf?_eq_some (h : edgeOf? ctx source l = some e) :
    ctx.resolve? l.reference.beanName = some e.target ∧
      ¬(l.member = .bean ∧ source.id = e.target.id) ∧
      e = ⟨l.reference.kind, source, l.member, e.target, ctx.name, false⟩ := by
  obtain ⟨target, found, made⟩ := Option.bind_eq_some_iff.1 h
  split at made
  · cases made
  · rename_i other
    cases made
    exact ⟨found, other, rfl⟩

/-- Without going on from targets, following a link inserts its edge. -/
theorem edges_follow (w : Walk) :
    (Walk.follow (fun w _ => w) ctx source w l).edges
      = (edgeOf? ctx source l).toList.foldl EdgeSet.insert w.edges := by
  unfold Walk.follow edgeOf? Walk.add
  cases ctx.resolve? l.reference.beanName with
  | none => rfl
  | some target =>
    by_cases self : l.member = .bean ∧ source.id = target.id
    · simp [self, Walk.ask]
    · simp [self, Walk.ask]

/-- Following links without going on adds the edges of these links, in order. -/
theorem edges_follows (links : List Link) (w : Walk) :
    (links.foldl (Walk.follow (fun w _ => w) ctx source) w).edges
      = (links.filterMap (edgeOf? ctx source)).foldl EdgeSet.insert w.edges := by
  induction links generalizing w with
  | nil => rfl
  | cons l links ih =>
    rw [List.foldl_cons, ih, edges_follow, List.filterMap_cons]
    cases edgeOf? ctx source l <;> rfl

end Links

/-! ## Credited edges -/

/-- The edges found inside nested beans, credited to the bean around them. -/
def creditedEdges (rules : List InterceptorRule) (ctx : Context) (b : Bean)
    (nests : List Nest) : List Reference :=
  nests.flatMap fun n =>
    ((directWalk rules ctx n).edges.toList.filter (·.target.id ≠ b.id)).map (·.creditedTo b)

section Credited

variable {rules : List InterceptorRule} {ctx : Context}

/-- The first nested bean credits its edges, apart from those back to the bean itself, before the
others do. -/
theorem creditedEdges_cons (b : Bean) (n : Nest) (nests : List Nest) :
    creditedEdges rules ctx b (n :: nests)
      = ((directWalk rules ctx n).edges.toList.filter (·.target.id ≠ b.id)).map (·.creditedTo b)
          ++ creditedEdges rules ctx b nests :=
  List.flatMap_cons

/-- Crediting adds the credited edges, in order. -/
theorem edges_creditAll (b : Bean) (w : Walk) (nests : List Nest) :
    (creditAll rules ctx b w nests).edges
      = (creditedEdges rules ctx b nests).foldl EdgeSet.insert w.edges := by
  induction nests generalizing w with
  | nil => rfl
  | cons n nests ih =>
    -- The walk over the first nest is its own; only its edges come over.
    rw [creditAll, ih, creditedEdges_cons, List.foldl_append]
    rfl

/-- Crediting visits no bean: the walks through nested beans are walks of their own. -/
theorem visited_creditAll (b : Bean) (w : Walk) (nests : List Nest) :
    (creditAll rules ctx b w nests).visited = w.visited := by
  induction nests generalizing w with
  | nil => rfl
  | cons n nests ih =>
    rw [creditAll, ih]
    rfl

end Credited

/-! ## The edges of a bean -/

/-- The links that a bean declares, that to its parent first. -/
def declaredLinks (rules : List InterceptorRule) (ctx : Context) (b : Bean) : List Link :=
  parentLink b ++ (beanLinks rules ctx b b.definition).1

/-- The direct edges of a bean: those of its links, and those credited to it. -/
def directEdges (rules : List InterceptorRule) (ctx : Context) (b : Bean) : List Reference :=
  (declaredLinks rules ctx b).filterMap (edgeOf? ctx b) ++ creditedEdges rules ctx b b.nest.inner

section Direct

variable {rules : List InterceptorRule} {ctx : Context}

/-- The edges of a walk over a nest are those of the links of its bean and the credited ones. -/
theorem edges_directWalk_node (b : Bean) (inner : List Nest) :
    (directWalk rules ctx (.node b inner)).edges
      = ((declaredLinks rules ctx b).filterMap (edgeOf? ctx b) ++
          creditedEdges rules ctx b inner).foldl EdgeSet.insert {} := by
  calc (directWalk rules ctx (.node b inner)).edges
      = (creditedEdges rules ctx b inner).foldl EdgeSet.insert
          ((declaredLinks rules ctx b).foldl (Walk.follow (fun w _ => w) ctx b) {}).edges := by
        rw [directWalk, edges_creditAll]
        rfl
    _ = (creditedEdges rules ctx b inner).foldl EdgeSet.insert
          (((declaredLinks rules ctx b).filterMap (edgeOf? ctx b)).foldl EdgeSet.insert {}) := by
        rw [edges_follows]
    _ = _ := List.foldl_append.symm

/-- The walk from a bean that does not go on ends with the direct edges of the bean. -/
theorem edges_directWalk (b : Bean) :
    (directWalk rules ctx b.nest).edges
      = (directEdges rules ctx b).foldl EdgeSet.insert {} := by
  rw [directEdges, Bean.nest_eq, edges_directWalk_node]
  rfl

/-- The edges that a direct walk from a bean returns are its direct edges, one of each key. -/
theorem edges_walk_direct (b : Bean) :
    (walk rules ctx false (.bean b)).edges
      = ((directEdges rules ctx b).foldl EdgeSet.insert {}).toList.foldl EdgeSet.insert {} := by
  rw [← edges_directWalk]
  rfl

/-- Every reference of a bean that is not recursive is one of its direct edges. -/
theorem mem_directEdges_of_mem_references {b : Bean} {e : Reference}
    (h : e ∈ references rules ctx false (.bean b)) : e ∈ directEdges rules ctx b := by
  have empty : ∀ {x : Reference}, x ∉ ({} : EdgeSet).toList := fun h => by cases h
  rw [references, edges_walk_direct] at h
  rcases EdgeSet.mem_or_mem_of_mem_foldl_insert h with h | h
  · exact absurd h empty
  · rcases EdgeSet.mem_or_mem_of_mem_foldl_insert h with h | h
    · exact absurd h empty
    · exact h

/-- Where no two direct edges of an inner bean share a key, they are what it is credited for. -/
theorem creditedEdges_inner {b : Bean}
    (once : ∀ i ∈ b.inner, ((directEdges rules ctx i).map Reference.key).Nodup) :
    creditedEdges rules ctx b b.nest.inner
      = b.inner.flatMap fun i =>
          ((directEdges rules ctx i).filter (·.target.id ≠ b.id)).map (·.creditedTo b) := by
  rw [Bean.nest_eq, Nest.inner, creditedEdges, List.flatMap_map]
  refine List.flatMap_congr ?_
  intro i hi
  have listed : ((directEdges rules ctx i).foldl EdgeSet.insert {}).toList
      = directEdges rules ctx i := EdgeSet.toList_foldl_insert (once i hi)
  rw [edges_directWalk, listed]

/-- Where no two direct edges share a key, they are the references of the bean. -/
theorem references_eq_directEdges {b : Bean}
    (once : ((directEdges rules ctx b).map Reference.key).Nodup) :
    references rules ctx false (.bean b) = directEdges rules ctx b := by
  have listed : ((directEdges rules ctx b).foldl EdgeSet.insert {}).toList
      = directEdges rules ctx b := EdgeSet.toList_foldl_insert once
  rw [references, edges_walk_direct, listed]
  exact listed

end Direct

/-! ## Where the edges lead -/

section Ends

variable {rules : List InterceptorRule} {ctx : Context}

mutual

/-- Every edge of a walk over a nest leads to a bean that a name stands for. -/
theorem finds_target_directWalk : (n : Nest) →
    ∀ e ∈ (directWalk rules ctx n).edges.toList, ctx.Finds e.target
  | .node b inner => by
    intro e he
    rw [edges_directWalk_node] at he
    rcases EdgeSet.mem_or_mem_of_mem_foldl_insert he with before | he
    · cases before
    · rcases List.mem_append.1 he with link | credited
      · obtain ⟨l, -, made⟩ := List.mem_filterMap.1 link
        exact ⟨_, (edgeOf?_eq_some made).1⟩
      · exact finds_target_creditedEdges b inner e credited

/-- Credited edges lead to beans that the context finds. -/
theorem finds_target_creditedEdges (b : Bean) : (nests : List Nest) →
    ∀ e ∈ creditedEdges rules ctx b nests, ctx.Finds e.target
  | [] => by
    intro e he
    cases he
  | n :: nests => by
    intro e he
    rw [creditedEdges_cons] at he
    rcases List.mem_append.1 he with first | later
    · -- Crediting an edge leaves its target alone.
      obtain ⟨inside, kept, rfl⟩ := List.mem_map.1 first
      exact finds_target_directWalk n inside (List.mem_filter.1 kept).1
    · exact finds_target_creditedEdges b nests e later

end

/-- A credited edge is one of the bean, and marked as found inside. -/
theorem source_of_mem_creditedEdges {b : Bean} {nests : List Nest} {e : Reference}
    (h : e ∈ creditedEdges rules ctx b nests) : e.source = b ∧ e.isInner = true := by
  obtain ⟨n, -, credited⟩ := List.mem_flatMap.1 h
  obtain ⟨inside, -, rfl⟩ := List.mem_map.1 credited
  exact ⟨rfl, rfl⟩

/-- A direct edge of a bean leads from it to a bean that a name stands for. -/
theorem ends_of_mem_directEdges {b : Bean} {e : Reference} (h : e ∈ directEdges rules ctx b) :
    e.source = b ∧ ctx.Finds e.target := by
  rcases List.mem_append.1 h with link | credited
  · obtain ⟨l, -, made⟩ := List.mem_filterMap.1 link
    obtain ⟨found, -, edge⟩ := edgeOf?_eq_some made
    exact ⟨by rw [edge], _, found⟩
  · exact ⟨(source_of_mem_creditedEdges credited).1, finds_target_creditedEdges b _ e credited⟩

end Ends

/-! ## Links after inheritance -/

section Inherited

/-- An override joins those there were. -/
theorem mem_addOverride {overrides : List MethodOverride} {o p : MethodOverride} :
    p ∈ addOverride overrides o ↔ p ∈ overrides ∨ p = o := by
  rw [addOverride]
  split
  · rename_i there
    refine ⟨Or.inl, ?_⟩
    rintro (h | rfl)
    · exact h
    · exact List.contains_iff_mem.1 there
  · rw [List.mem_append, List.mem_singleton]

/-- Overrides gathered one by one are those there were and the later ones. -/
theorem mem_foldl_addOverride {overrides later : List MethodOverride} {p : MethodOverride} :
    p ∈ later.foldl addOverride overrides ↔ p ∈ overrides ∨ p ∈ later := by
  induction later generalizing overrides with
  | nil => simp
  | cons o later ih => rw [List.foldl_cons, ih, mem_addOverride, List.mem_cons, or_assoc]

/-- What a definition refers to by name it still refers to when it is laid over another. -/
theorem namedReferences_overrideWith {V : Type} [BEq V] (base other : Definition V) :
    other.namedReferences ⊆ (base.overrideWith other).namedReferences := by
  -- Names stand for factories, for dependencies and in overridden methods; each of the three
  -- takes over what the upper definition declares.
  intro r hr
  rcases List.mem_append.1 hr with hr | override
  · apply List.mem_append_left
    rcases List.mem_append.1 hr with factory | dependency
    · apply List.mem_append_left
      obtain ⟨name, declared, rfl⟩ := List.mem_map.1 factory
      refine List.mem_map_of_mem ?_
      rw [Option.mem_toList] at declared ⊢
      exact Option.or_eq_some_iff.2 (.inl declared)
    · apply List.mem_append_right
      obtain ⟨name, declared, rfl⟩ := List.mem_map.1 dependency
      refine List.mem_map_of_mem ?_
      have some : other.dependsOn.isEmpty = false :=
        List.isEmpty_eq_false_iff.2 (List.ne_nil_of_mem declared)
      rwa [Definition.overrideWith, some]
  · apply List.mem_append_right
    obtain ⟨o, declared, rfl⟩ := List.mem_map.1 override
    exact List.mem_map_of_mem (mem_foldl_addOverride.2 (.inr declared))

/-- What a bean refers to by name it still refers to once everything inherited is laid under
its definition. -/
theorem namedReferences_merged (ctx : Context) (b : Bean) :
    b.definition.namedReferences ⊆ (merged ctx b).namedReferences := by
  cases root : rootOf? (ancestors ctx b) with
  | none =>
    have declared : merged ctx b = b.definition := by simp [merged, root]
    rw [declared]
    exact List.Subset.refl _
  | some r =>
    rw [merged_eq_override root]
    exact namedReferences_overrideWith _ _

/-- A bean declares no link that its merged definition does not declare. -/
theorem beanLinks_merged (rules : List InterceptorRule) (ctx : Context) (b : Bean) :
    (beanLinks rules ctx b b.definition).1 ⊆ (beanLinks rules ctx b (merged ctx b)).1 := by
  intro l hl
  rcases List.mem_append.1 hl with hl | property
  · apply List.mem_append_left
    rcases List.mem_append.1 hl with named | argument
    · apply List.mem_append_left
      obtain ⟨r, declared, rfl⟩ := List.mem_map.1 named
      exact List.mem_map_of_mem (namedReferences_merged ctx b declared)
    · exact List.mem_append_right _ argument
  · exact List.mem_append_right _ property

end Inherited

end BeanWiring
