/-
# What a deep walk reaches from a bean

The edges that a deep walk follows from a bean that it meets, and the beans that it comes to
in this way.  Neither says anything about the order in which beans are met.

A walk also climbs from the parent of a bean to its further ancestors.  It goes by names that
it has not followed yet, while `ancestors` goes by beans that it has not met yet, so the two
stop at different places of a cycle of parents; apart from the bean itself they come past the
same beans.

Main statements:

* `mem_ancestors_of_mem_climbed`, `mem_climbed_of_mem_ancestors` : the way up passes the
  ancestors of the bean and nothing else but the bean itself;
* `Reaches.parent` : the parent of a bean that is reached is reached.
-/
import BeanWiring.Proofs.Lookup.Inheritance
import BeanWiring.Proofs.Reference.Edges

namespace BeanWiring

/-! ## The edge between two beans -/

/-- The edge from a part of a bean to a target.  A bean as a whole has none to itself. -/
def edgeTo? (ctx : Context) (kind : ReferenceKind) (source : Bean) (member : Member)
    (target : Bean) : Option Reference :=
  if member = .bean ∧ source.id = target.id then none
  else some ⟨kind, source, member, target, ctx.name, false⟩

/-- The edge of a bean to one of its ancestors. -/
def toAncestor (ctx : Context) (c a : Bean) : Reference :=
  ⟨.parent, c, .bean, a, ctx.name, false⟩

section EdgeTo

variable {ctx : Context} {source target : Bean} {l : Link}

/-- A link whose name is found makes an edge to what is found. -/
theorem edgeOf?_of_resolve? (found : ctx.resolve? l.reference.beanName = some target) :
    edgeOf? ctx source l = edgeTo? ctx l.reference.kind source l.member target := by
  rw [edgeOf?, found]
  rfl

/-- A link whose name is not found makes no edge. -/
theorem edgeOf?_of_not_found (missing : ctx.resolve? l.reference.beanName = none) :
    edgeOf? ctx source l = none := by
  rw [edgeOf?, missing]
  rfl

/-- The edge to a parent, unless a bean is its own parent. -/
theorem edgeTo?_parent (other : source.id ≠ target.id) :
    edgeTo? ctx .parent source .bean target = some (toAncestor ctx source target) := by
  rw [edgeTo?, if_neg (fun self => other self.2), toAncestor]

theorem edgeTo?_self {kind : ReferenceKind} (same : source.id = target.id) :
    edgeTo? ctx kind source .bean target = none := by
  rw [edgeTo?, if_pos ⟨rfl, same⟩]

end EdgeTo

/-! ## The edges of a bean with everything inherited -/

/-- The links that a deep walk follows from a bean, that to its parent first. -/
def inheritedLinks (rules : List InterceptorRule) (ctx : Context) (c : Bean) : List Link :=
  parentLink c ++ (beanLinks rules ctx c (merged ctx c)).1

/-- The edges of a bean once everything inherited is laid under its definition: those of its
links, and those credited to it. -/
def mergedEdges (rules : List InterceptorRule) (ctx : Context) (c : Bean) : List Reference :=
  (inheritedLinks rules ctx c).filterMap (edgeOf? ctx c) ++ creditedEdges rules ctx c c.nest.inner

section Merged

variable {rules : List InterceptorRule} {ctx : Context} {c a : Bean} {e : Reference}

/-- The merged edges are those to the parent, those of the merged definition, and those credited. -/
theorem mem_mergedEdges_iff : e ∈ mergedEdges rules ctx c ↔
    (∃ l ∈ parentLink c, edgeOf? ctx c l = some e) ∨
      (∃ l ∈ (beanLinks rules ctx c (merged ctx c)).1, edgeOf? ctx c l = some e) ∨
      e ∈ creditedEdges rules ctx c c.nest.inner := by
  simp only [mergedEdges, inheritedLinks, List.mem_append, List.mem_filterMap, or_and_right,
    exists_or, or_assoc]

/-- Merged edges lead from the bean to beans that the context finds. -/
theorem ends_of_mem_mergedEdges (h : e ∈ mergedEdges rules ctx c) :
    e.source = c ∧ ctx.Finds e.target := by
  rcases List.mem_append.1 h with link | credited
  · obtain ⟨l, -, made⟩ := List.mem_filterMap.1 link
    obtain ⟨found, -, edge⟩ := edgeOf?_eq_some made
    exact ⟨by rw [edge], _, found⟩
  · exact ⟨(source_of_mem_creditedEdges credited).1, finds_target_creditedEdges c _ e credited⟩

/-- Only the link to its parent makes an edge of a bean to an ancestor. -/
theorem kind_ne_parent_of_mem_beanLinks {definition : Definition (Value Declaration)} {l : Link}
    (h : l ∈ (beanLinks rules ctx c definition).1) : l.reference.kind ≠ .parent := by
  have ofValue : ∀ (interceptors : Bool) (v : Value Bean),
      ∀ r ∈ v.namedReferences interceptors, r.kind ≠ .parent := by
    intro interceptors v r hr
    rcases Value.kind_of_mem_namedReferences hr with standard | interceptor
    · rw [standard]
      exact nofun
    · rw [interceptor]
      exact nofun
  rcases List.mem_append.1 h with h | property
  · rcases List.mem_append.1 h with named | argument
    · obtain ⟨r, hr, rfl⟩ := List.mem_map.1 named
      simp only [Definition.namedReferences, List.mem_append, List.mem_map] at hr
      rcases hr with (⟨_, -, rfl⟩ | ⟨_, -, rfl⟩) | ⟨_, -, rfl⟩ <;> simp
    · obtain ⟨position, -, hl⟩ := List.mem_flatMap.1 argument
      unfold argumentLinks at hl
      split at hl
      · obtain ⟨r, hr, rfl⟩ := List.mem_map.1 hl
        exact ofValue _ _ r hr
      · cases hl
  · obtain ⟨links, hlinks, hl⟩ := List.mem_flatMap.1 property
    obtain ⟨p, -, rfl⟩ := List.mem_map.1 hlinks
    obtain ⟨r, hr, rfl⟩ := List.mem_map.1 hl
    exact ofValue _ _ r hr

/-- An ancestor that a merged edge leads to is what the parent's name stands for. -/
theorem parent_of_toAncestor_mem (h : toAncestor ctx c a ∈ mergedEdges rules ctx c) :
    ∃ name, c.parent = some name ∧ ctx.resolve? name = some a ∧ c.id ≠ a.id := by
  rcases List.mem_append.1 h with link | credited
  · obtain ⟨l, declared, made⟩ := List.mem_filterMap.1 link
    obtain ⟨found, other, edge⟩ := edgeOf?_eq_some made
    have kind : l.reference.kind = .parent := (congrArg Reference.kind edge).symm
    have member : l.member = .bean := (congrArg Reference.member edge).symm
    rcases List.mem_append.1 declared with parent | declared
    · obtain ⟨name, named, rfl⟩ := List.mem_map.1 parent
      exact ⟨name, Option.mem_toList.1 named, found, fun self => other ⟨rfl, self⟩⟩
    · exact absurd kind (kind_ne_parent_of_mem_beanLinks declared)
  · cases (source_of_mem_creditedEdges credited).2

/-- The parent of a bean is at the end of one of its merged edges. -/
theorem toAncestor_mem_mergedEdges {name : String} (parent : c.parent = some name)
    (found : ctx.resolve? name = some a) (other : c.id ≠ a.id) :
    toAncestor ctx c a ∈ mergedEdges rules ctx c := by
  refine List.mem_append_left _ (List.mem_filterMap.2 ⟨⟨.bean, ⟨.parent, name⟩⟩, ?_, ?_⟩)
  · refine List.mem_append_left _ ?_
    rw [parentLink, parent]
    exact List.mem_singleton_self _
  · rw [edgeOf?_of_resolve? found]
    exact edgeTo?_parent other

end Merged

/-! ## Beans that are reached -/

/-- Beans that merged edges lead to from the bean `b`, one after the other.  An edge found
inside an inner bean leads nowhere. -/
inductive Reaches (rules : List InterceptorRule) (ctx : Context) (b : Bean) : Bean → Prop
  | start : Reaches rules ctx b b
  | onward {c : Bean} {e : Reference} (reached : Reaches rules ctx b c)
      (edge : e ∈ mergedEdges rules ctx c) (outer : e.isInner = false) :
      Reaches rules ctx b e.target

namespace Reaches

variable {rules : List InterceptorRule} {ctx : Context} {b c d : Bean}

theorem trans (first : Reaches rules ctx b c) (second : Reaches rules ctx c d) :
    Reaches rules ctx b d := by
  induction second with
  | start => exact first
  | onward _ edge outer ih => exact .onward ih edge outer

/-- What is reached from a bean that is found is found. -/
theorem finds (h : Reaches rules ctx b c) (start : ctx.Finds b) : ctx.Finds c := by
  cases h with
  | start => exact start
  | onward _ edge _ => exact (ends_of_mem_mergedEdges edge).2

/-- The parent of a bean that is reached is reached. -/
theorem parent (named : ctx.IsNamed) (h : Reaches rules ctx b c) (findsC : ctx.Finds c)
    {name : String} (parent : c.parent = some name) (found : ctx.resolve? name = some d) :
    Reaches rules ctx b d := by
  by_cases same : c.id = d.id
  · -- A bean that is its own parent has no edge to itself.
    rwa [← named.eq_of_id findsC ⟨name, found⟩ same]
  · exact .onward h (toAncestor_mem_mergedEdges parent found same) rfl

end Reaches

/-! ## The way up -/

/-- The beans passed on the way up from a bean along names that were not followed before. -/
def climbed (ctx : Context) : (fuel : Nat) → (followed : List String) → (current : Bean) →
    List Bean
  | 0, _, _ => []
  | fuel + 1, followed, current =>
    match current.parent with
    | none => []
    | some name =>
      if name ∈ followed then
        []
      else
        match ctx.resolve? name with
        | none => []
        | some next => next :: climbed ctx fuel (name :: followed) next

section Climb

variable {ctx : Context} {b c a p : Bean}

/-- The parent of a bean, if it is found and another bean, is its first ancestor. -/
theorem ancestors_eq_cons (finds : ctx.Finds c) {name : String} (parent : c.parent = some name)
    (found : ctx.resolve? name = some p) (other : c.id ≠ p.id) :
    ∃ rest, ancestors ctx c = p :: rest ∧ ParentWalk ctx [p.id, c.id] name p.parent rest := by
  have walk := parentWalk_ancestors ctx c
  have notOwn : name ≠ c.name := by
    rintro rfl
    obtain ⟨_, own⟩ := finds
    rw [Context.resolve?_name own] at found
    exact other (congrArg Bean.id (Option.some.inj found))
  rw [parent] at walk
  generalize ancestors ctx c = chain at walk ⊢
  cases walk with
  | ownName => exact absurd rfl notOwn
  | notFound _ missing => rw [found] at missing; cases missing
  | metBefore _ found' again =>
    rw [found] at found'
    cases found'
    exact absurd (List.mem_singleton.1 again).symm other
  | next _ found' _ rest =>
    rw [found] at found'
    cases found'
    exact ⟨_, rfl, rest⟩

/-- The first ancestor of a bean is what the name of its parent stands for. -/
theorem parent_of_head?_ancestors (h : (ancestors ctx c).head? = some p) :
    ∃ name, c.parent = some name ∧ ctx.resolve? name = some p := by
  have walk := parentWalk_ancestors ctx c
  generalize ancestors ctx c = chain at h walk
  generalize above : c.parent = parent at walk
  cases walk with
  | noParent | ownName | notFound | metBefore => cases h
  | next _ found _ _ =>
    cases h
    exact ⟨_, rfl, found⟩

/-- A bean without a parent that is found and another bean has no ancestors. -/
theorem ancestors_eq_nil
    (none : ∀ name, c.parent = some name → ∀ p, ctx.resolve? name = some p → c.id = p.id) :
    ancestors ctx c = [] := by
  have walk := parentWalk_ancestors ctx c
  generalize ancestors ctx c = chain at walk ⊢
  generalize parent : c.parent = above at walk
  cases walk with
  | noParent | ownName | notFound | metBefore => rfl
  | next _ found new _ =>
    exact absurd (List.mem_singleton.2 (none _ parent _ found).symm) new

/-- A walk along parents only meets beans that names lead to. -/
theorem ParentWalk.finds {met : List BeanId} {current : String} {above : Option String}
    {chain : List Bean} (walk : ParentWalk ctx met current above chain) :
    ∀ x ∈ chain, ctx.Finds x := by
  induction walk with
  | noParent | ownName | notFound | metBefore => intro x hx; cases hx
  | next _ found _ _ ih =>
    intro x hx
    rcases List.mem_cons.1 hx with rfl | hx
    · exact ⟨_, found⟩
    · exact ih x hx

/-- A walk along parents meets no bean again. -/
theorem ParentWalk.id_not_mem {met : List BeanId} {current : String} {above : Option String}
    {chain : List Bean} (walk : ParentWalk ctx met current above chain) :
    ∀ x ∈ chain, x.id ∉ met := by
  induction walk with
  | noParent | ownName | notFound | metBefore => intro x hx; cases hx
  | next _ _ new _ ih =>
    intro x hx
    rcases List.mem_cons.1 hx with rfl | hx
    · exact new
    · exact fun before => ih x hx (List.mem_cons_of_mem _ before)

/-- The parents of the beans on a walk were met before, or are on the walk themselves. -/
theorem ParentWalk.parent_mem {met : List BeanId} {current : String} {above : Option String}
    {chain : List Bean} (walk : ParentWalk ctx met current above chain)
    (currentMet : ∀ y, ctx.resolve? current = some y → y.id ∈ met) :
    ∀ name, above = some name ∨ (∃ x ∈ chain, x.parent = some name) →
      ∀ y, ctx.resolve? name = some y → y.id ∈ met ∨ y.id ∈ chain.map Bean.id := by
  -- The walk ends where it would come back to a bean, so nothing leads out of it.
  induction walk with
  | noParent =>
    rintro name (h | ⟨x, hx, -⟩) y -
    · cases h
    · cases hx
  | ownName =>
    rintro name (h | ⟨x, hx, -⟩) y found
    · cases h
      exact .inl (currentMet y found)
    · cases hx
  | notFound _ missing =>
    rintro name (h | ⟨x, hx, -⟩) y found
    · cases h
      rw [missing] at found
      cases found
    · cases hx
  | metBefore _ found again =>
    rintro name (h | ⟨x, hx, -⟩) y found'
    · cases h
      rw [found] at found'
      cases found'
      exact .inl again
    · cases hx
  | @next met current name p rest other found new walk ih =>
    have later := ih fun y found' => by
      rw [found] at found'
      cases found'
      exact List.mem_cons_self
    intro name' leads y found'
    rw [List.map_cons, List.mem_cons]
    have onwards : p.parent = some name' ∨ (∃ x ∈ rest, x.parent = some name') →
        y.id ∈ met ∨ y.id = p.id ∨ y.id ∈ rest.map Bean.id := by
      intro leads
      rcases later name' leads y found' with h | h
      · rcases List.mem_cons.1 h with h | h
        · exact .inr (.inl h)
        · exact .inl h
      · exact .inr (.inr h)
    rcases leads with h | ⟨x, hx, above⟩
    · cases h
      rw [found] at found'
      cases found'
      exact .inr (.inl rfl)
    · rcases List.mem_cons.1 hx with rfl | hx
      · exact onwards (.inl above)
      · exact onwards (.inr ⟨x, hx, above⟩)

/-- Ancestors are beans that the context finds. -/
theorem finds_of_mem_ancestors (h : a ∈ ancestors ctx c) : ctx.Finds a :=
  (parentWalk_ancestors ctx c).finds a h

/-- No bean is its own ancestor. -/
theorem id_ne_of_mem_ancestors (h : a ∈ ancestors ctx c) : c.id ≠ a.id := fun same =>
  (parentWalk_ancestors ctx c).id_not_mem a h (List.mem_singleton.2 same.symm)

/-- Parents do not lead out of a bean and its ancestors. -/
theorem parent_mem_ancestors (named : ctx.IsNamed) (finds : ctx.Finds c) {x y : Bean}
    (hx : x ∈ c :: ancestors ctx c) {name : String} (parent : x.parent = some name)
    (found : ctx.resolve? name = some y) : y ∈ c :: ancestors ctx c := by
  have walk := parentWalk_ancestors ctx c
  have ownMet : ∀ z, ctx.resolve? c.name = some z → z.id ∈ [c.id] := by
    intro z found
    obtain ⟨_, own⟩ := finds
    rw [Context.resolve?_name own] at found
    cases found
    exact List.mem_singleton_self _
  have leads : c.parent = some name ∨ ∃ x ∈ ancestors ctx c, x.parent = some name := by
    rcases List.mem_cons.1 hx with rfl | hx
    · exact .inl parent
    · exact .inr ⟨x, hx, parent⟩
  rcases walk.parent_mem ownMet name leads y found with start | above
  · rw [named.eq_of_id ⟨name, found⟩ finds (List.mem_singleton.1 start)]
    exact List.mem_cons_self
  · obtain ⟨z, hz, same⟩ := List.mem_map.1 above
    rw [← named.eq_of_id (finds_of_mem_ancestors hz) ⟨name, found⟩ same]
    exact List.mem_cons_of_mem _ hz

/-- The way up from a bean or an ancestor passes ancestors, apart from the bean itself. -/
theorem mem_ancestors_of_mem_climbed (named : ctx.IsNamed) (finds : ctx.Finds c) (fuel : Nat)
    {followed : List String} {x : Bean} (hx : x ∈ c :: ancestors ctx c)
    (h : a ∈ climbed ctx fuel followed x) : a ∈ c :: ancestors ctx c := by
  induction fuel generalizing followed x with
  | zero => cases h
  | succ fuel ih =>
    unfold climbed at h
    cases parent : x.parent with
    | none =>
      rw [parent] at h
      cases h
    | some name =>
      simp only [parent] at h
      split at h
      · cases h
      · cases found : ctx.resolve? name with
        | none =>
          rw [found] at h
          cases h
        | some next =>
          rw [found] at h
          have onTheWay := parent_mem_ancestors named finds hx parent found
          rcases List.mem_cons.1 h with rfl | h
          · exact onTheWay
          · exact ih onTheWay h

/-- The way up passes all beans of a walk along parents, if no name was followed that leads out
of the beans met. -/
theorem ParentWalk.mem_climbed {met : List BeanId} {current : String} {x : Bean}
    {above : Option String} {chain : List Bean} (walk : ParentWalk ctx met current above chain)
    (parent : x.parent = above) {followed : List String}
    (back : ∀ name ∈ followed, ∀ y, ctx.resolve? name = some y → y.id ∈ met) {fuel : Nat}
    (enough : chain.length ≤ fuel) : ∀ a ∈ chain, a ∈ climbed ctx fuel followed x := by
  induction walk generalizing x followed fuel with
  | noParent | ownName | notFound | metBefore => intro a ha; cases ha
  | @next met current name p rest other found new walk ih =>
    obtain _ | fuel := fuel
    · cases enough
    · have notFollowed : name ∉ followed := fun before => new (back name before p found)
      have passes :
          climbed ctx (fuel + 1) followed x = p :: climbed ctx fuel (name :: followed) p := by
        rw [climbed, parent]
        simp only [notFollowed, if_false, found]
      have back' : ∀ other ∈ name :: followed, ∀ y, ctx.resolve? other = some y →
          y.id ∈ p.id :: met := by
        intro other hother y found'
        rcases List.mem_cons.1 hother with rfl | hother
        · rw [found] at found'
          cases found'
          exact List.mem_cons_self
        · exact List.mem_cons_of_mem _ (back other hother y found')
      intro a ha
      rw [passes]
      rcases List.mem_cons.1 ha with rfl | ha
      · exact List.mem_cons_self
      · exact List.mem_cons_of_mem _
          (ih rfl back' (Nat.le_of_succ_le_succ enough) a ha)

/-- From its parent on, the way up passes all further ancestors of a bean. -/
theorem mem_climbed_of_mem_ancestors (finds : ctx.Finds c) {name : String}
    (parent : c.parent = some name) (found : ctx.resolve? name = some p) (other : c.id ≠ p.id)
    (h : a ∈ ancestors ctx c) :
    a = p ∨ a ∈ climbed ctx (ctx.allBeans.length + 2) [p.name, c.name] p := by
  obtain ⟨rest, chain, walk⟩ := ancestors_eq_cons finds parent found other
  have short : (p :: rest).length ≤ ctx.allBeans.length + 1 :=
    chain ▸ length_ancestorsFrom_le _ _ _ _ _
  have back : ∀ name ∈ [p.name, c.name], ∀ y, ctx.resolve? name = some y →
      y.id ∈ [p.id, c.id] := by
    -- Both beans are found by their own names.
    intro name' followed y found'
    rw [List.mem_cons, List.mem_singleton] at followed
    obtain ⟨_, own⟩ := finds
    rcases followed with rfl | rfl
    · rw [Context.resolve?_name found] at found'
      cases found'
      exact List.mem_cons_self
    · rw [Context.resolve?_name own] at found'
      cases found'
      exact List.mem_cons_of_mem _ (List.mem_singleton_self _)
  rw [chain] at h
  rcases List.mem_cons.1 h with same | h
  · exact .inl same
  · refine .inr (walk.mem_climbed rfl back ?_ a h)
    rw [List.length_cons] at short
    omega

/-- From the parent of a bean and on the way up, the edges that are made are those of the bean
to its ancestors. -/
theorem edge_of_climbed_iff (named : ctx.IsNamed) (finds : ctx.Finds c) {name : String}
    (parent : c.parent = some name) (found : ctx.resolve? name = some p) (other : c.id ≠ p.id)
    {e : Reference} :
    (edgeTo? ctx .parent c .bean p = some e ∨
        ∃ a ∈ climbed ctx (ctx.allBeans.length + 2) [p.name, c.name] p,
          edgeTo? ctx .parent c .bean a = some e) ↔
      ∃ a ∈ ancestors ctx c, e = toAncestor ctx c a := by
  obtain ⟨rest, chain, -⟩ := ancestors_eq_cons finds parent found other
  have isAncestor : p ∈ ancestors ctx c := chain ▸ List.mem_cons_self
  constructor
  · rintro (direct | ⟨a, passed, made⟩)
    · rw [edgeTo?_parent other, Option.some.injEq] at direct
      exact ⟨p, isAncestor, direct.symm⟩
    · have above := mem_ancestors_of_mem_climbed named finds _
        (List.mem_cons_of_mem c isAncestor) passed
      rcases List.mem_cons.1 above with rfl | above
      · -- The way up may come back to the bean, which has no edge to itself.
        rw [edgeTo?_self rfl] at made
        cases made
      · rw [edgeTo?_parent (id_ne_of_mem_ancestors above), Option.some.injEq] at made
        exact ⟨a, above, made.symm⟩
  · rintro ⟨a, above, rfl⟩
    have made : edgeTo? ctx .parent c .bean a = some (toAncestor ctx c a) :=
      edgeTo?_parent (id_ne_of_mem_ancestors above)
    rcases mem_climbed_of_mem_ancestors finds parent found other above with rfl | passed
    · exact .inl made
    · exact .inr ⟨a, passed, made⟩

end Climb

end BeanWiring
