/-
# References of members

A walk may start from one argument or property of a bean instead of the bean.  It follows the
names in the value of the member and nothing else: the beans nested in the value are walked with
the bean only, and it is the bean as a whole that is credited for them.

Main statements:

* `hasTarget_member_iff` : a member refers to what the names that it mentions stand for;
* `valueTarget_iff` : what the values of a bean refer to in the walk over the bean;
* `member_references_iff` : both, against everything that the value of a member refers to.
-/
import BeanWiring.Proofs.Definition.Layers
import BeanWiring.Proofs.Reference.Credited
import BeanWiring.Proofs.Reference.Values

namespace BeanWiring

/-! ## Edges from arguments and properties -/

/-- An argument or a property of a bean mentions a name. -/
inductive MemberMentions (rules : List InterceptorRule) (ctx : Context) (b : Bean) :
    Member → String → Prop
  | argument {position : Nat} {index : Option Nat} {a : Argument (Value Bean)}
      (declared : b.arguments[position]? = some (index, a)) {r : NamedReference}
      (named : r ∈ a.value.namedReferences false) :
      MemberMentions rules ctx b (.argument position) r.beanName
  | property {p : Property (Value Bean)} (declared : p ∈ b.properties) {r : NamedReference}
      (named : r ∈ p.value.namedReferences (isInterceptorList rules ctx b p.name)) :
      MemberMentions rules ctx b (.property p.name) r.beanName

section Edges

variable {rules : List InterceptorRule} {ctx : Context} {b : Bean} {m : Member} {name : String}

theorem mem_argumentLinks_iff {position : Nat} {l : Link} :
    l ∈ argumentLinks b position ↔ ∃ index a, b.arguments[position]? = some (index, a) ∧
      ∃ r ∈ a.value.namedReferences false, l = ⟨.argument position, r⟩ := by
  unfold argumentLinks
  cases b.arguments[position]? with
  | none => simp
  | some entry =>
    obtain ⟨index, a⟩ := entry
    simp only [List.mem_map, Option.some.injEq, Prod.mk.injEq]
    constructor
    · rintro ⟨r, named, rfl⟩
      exact ⟨index, a, ⟨rfl, rfl⟩, r, named, rfl⟩
    · rintro ⟨_, _, ⟨rfl, rfl⟩, r, named, rfl⟩
      exact ⟨r, named, rfl⟩

/-- The names that a part of a bean mentions are those of the links from it. -/
theorem memberMentions_iff (part : m ≠ .bean) :
    MemberMentions rules ctx b m name ↔
      ∃ l ∈ declaredLinks rules ctx b, l.member = m ∧ l.reference.beanName = name := by
  constructor
  · rintro (⟨declared, named⟩ | ⟨declared, named⟩)
    · refine ⟨⟨.argument _, _⟩, ?_, rfl, rfl⟩
      refine List.mem_append_right _ (List.mem_append_left _ (List.mem_append_right _ ?_))
      exact List.mem_flatMap.2 ⟨_, List.mem_range.2 (List.getElem?_eq_some_iff.1 declared).1,
        mem_argumentLinks_iff.2 ⟨_, _, declared, _, named, rfl⟩⟩
    · refine ⟨⟨.property _, _⟩, ?_, rfl, rfl⟩
      refine List.mem_append_right _ (List.mem_append_right _ ?_)
      exact List.mem_flatMap.2 ⟨_, List.mem_map_of_mem declared, List.mem_map_of_mem named⟩
  · rintro ⟨l, declared, rfl, rfl⟩
    rcases List.mem_append.1 declared with parent | declared
    · obtain ⟨_, -, rfl⟩ := List.mem_map.1 parent
      exact absurd rfl part
    · rcases List.mem_append.1 declared with declared | property
      · rcases List.mem_append.1 declared with whole | argument
        · obtain ⟨_, -, rfl⟩ := List.mem_map.1 whole
          exact absurd rfl part
        · obtain ⟨position, -, link⟩ := List.mem_flatMap.1 argument
          obtain ⟨index, a, there, r, named, rfl⟩ := mem_argumentLinks_iff.1 link
          exact .argument there named
      · obtain ⟨_, links, link⟩ := List.mem_flatMap.1 property
        obtain ⟨p, there, rfl⟩ := List.mem_map.1 links
        obtain ⟨r, named, rfl⟩ := List.mem_map.1 link
        exact .property there named

/-- A direct walk returns an edge of each key that a direct edge has. -/
theorem exists_reference_of_key {e : Reference} (h : e ∈ directEdges rules ctx b) :
    ∃ f ∈ references rules ctx false (.bean b), f.key = e.key := by
  refine EdgeSet.exists_of_has (k := e.key) ?_
  have found : ((directEdges rules ctx b).foldl EdgeSet.insert {}).has e.key = true :=
    EdgeSet.has_foldl_insert.2 (.inr (List.mem_map_of_mem h))
  rw [edges_walk_direct, EdgeSet.has_foldl_insert]
  exact .inr (EdgeSet.has_iff.1 found)

/-- The direct references have an edge from a part of a bean to another bean exactly if the part
mentions a name that stands for the other bean as it is. -/
theorem exists_edge_iff (part : m ≠ .bean) {target : BeanId} :
    (∃ e ∈ references rules ctx false (.bean b),
        e.source = b ∧ e.member = m ∧ e.target.id = target) ↔
      ∃ name t, MemberMentions rules ctx b m name ∧ ctx.resolve? name = some t ∧
        t.id = target := by
  constructor
  · rintro ⟨e, listed, -, member, leads⟩
    rcases List.mem_append.1 (mem_directEdges_of_mem_references listed) with link | credited
    · obtain ⟨l, declared, made⟩ := List.mem_filterMap.1 link
      obtain ⟨found, -, edge⟩ := edgeOf?_eq_some made
      have from' : l.member = m := (congrArg Reference.member edge).symm.trans member
      exact ⟨_, _, (memberMentions_iff part).2 ⟨l, declared, from', rfl⟩, found, leads⟩
    · -- What is found inside an inner bean is an edge of the bean as a whole.
      obtain ⟨n, -, inside⟩ := List.mem_flatMap.1 credited
      obtain ⟨f, -, rfl⟩ := List.mem_map.1 inside
      exact absurd member.symm part
  · rintro ⟨name, t, mentions, found, rfl⟩
    obtain ⟨l, declared, rfl, rfl⟩ := (memberMentions_iff part).1 mentions
    have made : edgeOf? ctx b l
        = some ⟨l.reference.kind, b, l.member, t, ctx.name, false⟩ := by
      rw [edgeOf?, found, Option.bind_some, if_neg fun self => part self.1]
    have direct := List.mem_append_left (creditedEdges rules ctx b b.nest.inner)
      (List.mem_filterMap.2 ⟨l, declared, made⟩)
    obtain ⟨f, listed, same⟩ := exists_reference_of_key direct
    refine ⟨f, listed, ?_, congrArg ReferenceKey.member same, congrArg ReferenceKey.target same⟩
    exact (ends_of_mem_directEdges (mem_directEdges_of_mem_references listed)).1

end Edges

/-! ## What a value refers to -/

namespace Value

/-- The beans nested in a value, at any depth. -/
def innerDeep (v : Value Bean) : List Bean :=
  v.inner.flatMap fun i => i :: i.innerDeep

/-- Some bean nested in a value, at any depth, has a reference of its own to the target. -/
def RefersInside (rules : List InterceptorRule) (ctx : Context) (v : Value Bean) (target : Bean) :
    Prop :=
  ∃ i ∈ v.innerDeep, ∃ kind, LeadsTo rules ctx i false kind target

/-- What a value refers to: the beans that the names mentioned in it stand for, and its literals if
it is an interceptor list, and everything that the beans nested in it refer to. -/
inductive RefersTo (rules : List InterceptorRule) (ctx : Context) (interceptorList : Bool)
    (v : Value Bean) (target : Bean) : Prop
  | mentioned {name : String} (there : name ∈ v.referencedNames)
      (found : ctx.resolve? name = some target)
  | literal {items : List (Value Bean)} {item : Value Bean} {name : String}
      (interceptors : interceptorList = true) (list : v = .list items) (there : item ∈ items)
      (text : item.text? = some name) (found : ctx.resolve? name = some target)
  | inside (nested : v.RefersInside rules ctx target)

/-- The names that a value mentions are those that it is read as outside interceptor lists. -/
theorem namesAs_false (v : Value Bean) : v.namesAs false = v.referencedNames :=
  map_beanName_namedReferences v

/-- Only a list is read in another way as an interceptor list. -/
theorem namesAs_of_ne_list {il : Bool} {v : Value Bean} (other : ∀ items, v ≠ .list items) :
    v.namesAs il = v.referencedNames := by
  rw [← namesAs_false]
  cases v with
  | list items => exact absurd rfl (other items)
  | literal | reference | nameReference | nested | set | map | properties | null => rfl

/-- What is read of a value is something that it refers to. -/
theorem RefersTo.of_namesAs {rules : List InterceptorRule} {ctx : Context} {il : Bool}
    {v : Value Bean} {name : String} {target : Bean} (there : name ∈ v.namesAs il)
    (found : ctx.resolve? name = some target) : v.RefersTo rules ctx il target := by
  by_cases list : ∃ items, v = .list items
  · obtain ⟨items, rfl⟩ := list
    cases il with
    | false => exact .mentioned (namesAs_false _ ▸ there) found
    | true =>
      obtain ⟨item, listed, text⟩ := mem_namesAs_list_iff.1 there
      exact .literal rfl rfl listed text found
  · rw [namesAs_of_ne_list fun items is => list ⟨items, is⟩] at there
    exact .mentioned there found

end Value

/-! ## Members and their values -/

/-- The member of a bean as something that a walk starts from. -/
def Bean.element (b : Bean) : Member → ReferenceElement
  | .bean => .bean b
  | .argument position => .argument b position
  | .property name => .property b name

/-- The value of a member, and whether it is an interceptor list.  The bean as a whole has none. -/
def memberValue? (rules : List InterceptorRule) (ctx : Context) (b : Bean) :
    Member → Option (Value Bean × Bool)
  | .bean => none
  | .argument position => b.arguments[position]?.map fun a => (a.2.value, false)
  | .property name => (b.property? name).map fun p => (p.value, isInterceptorList rules ctx b name)

/-- The links of a member with the given value. -/
def memberLinks (m : Member) (v : Value Bean) (interceptorList : Bool) : List Link :=
  (v.namedReferences interceptorList).map (⟨m, ·⟩)

/-- The direct references of an element include one to the target. -/
def HasTarget (rules : List InterceptorRule) (ctx : Context) (element : ReferenceElement)
    (target : Bean) : Prop :=
  ∃ e ∈ references rules ctx false element, e.target = target

section Members

variable {rules : List InterceptorRule} {ctx : Context} {b : Bean} {m : Member} {v : Value Bean}
  {il : Bool}

theorem ne_bean_of_memberValue? (holds : memberValue? rules ctx b m = some (v, il)) :
    m ≠ .bean := by
  rintro rfl
  cases holds

/-- Where no two properties share their name, each is the member of its name. -/
theorem memberValue?_property (own : b.definition.IsWellFormed) {p : Property (Value Bean)}
    (declared : p ∈ b.properties) : memberValue? rules ctx b (.property p.name)
      = some (p.value, isInterceptorList rules ctx b p.name) := by
  have once : (b.properties.map Property.name).Nodup := by
    rw [Bean.properties, List.map_map]
    exact own.properties
  rw [memberValue?, Bean.property?, Keyed.get?_key_of_mem once declared]
  rfl

/-- Where no two properties share their name, what a member mentions is what is read of its
value. -/
theorem memberMentions_iff_value (own : b.definition.IsWellFormed) {name : String} :
    MemberMentions rules ctx b m name ↔
      ∃ v il, memberValue? rules ctx b m = some (v, il) ∧ name ∈ v.namesAs il := by
  constructor
  · rintro (⟨declared, named⟩ | ⟨declared, named⟩)
    · refine ⟨_, _, ?_, List.mem_map_of_mem named⟩
      rw [memberValue?, declared]
      rfl
    · exact ⟨_, _, memberValue?_property own declared, List.mem_map_of_mem named⟩
  · rintro ⟨v, il, holds, read⟩
    obtain ⟨r, named, rfl⟩ := List.mem_map.1 read
    cases m with
    | bean => cases holds
    | argument position =>
      obtain ⟨a, there, value⟩ := Option.map_eq_some_iff.1 holds
      cases value
      exact .argument there named
    | property name =>
      obtain ⟨p, there, value⟩ := Option.map_eq_some_iff.1 holds
      cases value
      have same : p.name = name := by simpa using List.find?_some there
      subst same
      exact .property (List.mem_of_find?_eq_some there) named

/-- A walk from a member inserts the edges of its links. -/
theorem edges_walk_member (holds : memberValue? rules ctx b m = some (v, il)) :
    (walk rules ctx false (b.element m)).edges
      = ((memberLinks m v il).filterMap (edgeOf? ctx b)).foldl EdgeSet.insert {} := by
  cases m with
  | bean => cases holds
  | argument position =>
    obtain ⟨⟨index, a⟩, there, value⟩ := Option.map_eq_some_iff.1 holds
    cases value
    have links : argumentLinks b position = memberLinks (.argument position) a.value false := by
      rw [argumentLinks, there, memberLinks]
    calc (walk rules ctx false (.argument b position)).edges
        = ((argumentLinks b position).filterMap (edgeOf? ctx b)).foldl EdgeSet.insert {} :=
          edges_follows _ {}
      _ = _ := by rw [links]
  | property name =>
    obtain ⟨p, there, value⟩ := Option.map_eq_some_iff.1 holds
    cases value
    have same : p.name = name := by simpa using List.find?_some there
    have links : (propertyLinks rules ctx b p).1
        = memberLinks (.property name) p.value (isInterceptorList rules ctx b name) := by
      rw [← same]
      rfl
    calc (walk rules ctx false (.property b name)).edges
        = (((propertyLinks rules ctx b p).1.foldl (Walk.follow (fun w _ => w) ctx b)
            (Walk.ask {} (propertyLinks rules ctx b p).2))).edges := by
          rw [walk, there]
          rfl
      _ = ((propertyLinks rules ctx b p).1.filterMap (edgeOf? ctx b)).foldl EdgeSet.insert {} :=
          edges_follows _ _
      _ = _ := by rw [links]

/-- A member refers to what the names that are read of its value stand for. -/
theorem hasTarget_member_iff (named : ctx.IsNamed)
    (holds : memberValue? rules ctx b m = some (v, il)) (target : Bean) :
    HasTarget rules ctx (b.element m) target ↔
      ∃ name ∈ v.namesAs il, ctx.resolve? name = some target := by
  have part := ne_bean_of_memberValue? holds
  rw [HasTarget, references, edges_walk_member holds]
  constructor
  · rintro ⟨e, listed, rfl⟩
    rcases EdgeSet.mem_or_mem_of_mem_foldl_insert listed with before | made
    · cases before
    · obtain ⟨l, link, made⟩ := List.mem_filterMap.1 made
      obtain ⟨r, there, rfl⟩ := List.mem_map.1 link
      exact ⟨r.beanName, List.mem_map_of_mem there, (edgeOf?_eq_some made).1⟩
  · rintro ⟨name, read, found⟩
    obtain ⟨r, there, rfl⟩ := List.mem_map.1 read
    have made : edgeOf? ctx b ⟨m, r⟩ = some ⟨r.kind, b, m, target, ctx.name, false⟩ := by
      rw [edgeOf?, found, Option.bind_some, if_neg fun self => part self.1]
    have link : (⟨m, r⟩ : Link) ∈ memberLinks m v il := List.mem_map_of_mem there
    have listed := List.mem_filterMap.2 ⟨_, link, made⟩
    obtain ⟨f, inserted, key⟩ := EdgeSet.exists_of_has
      ((EdgeSet.has_foldl_insert (s := {})).2 (.inr (List.mem_map_of_mem listed)))
    refine ⟨f, inserted, ?_⟩
    -- The edge of this key that was inserted leads to a bean that some name stands for, too.
    rcases EdgeSet.mem_or_mem_of_mem_foldl_insert inserted with before | made'
    · cases before
    · obtain ⟨l, -, made'⟩ := List.mem_filterMap.1 made'
      have findsF : ctx.Finds f.target := ⟨_, (edgeOf?_eq_some made').1⟩
      exact named.eq_of_id findsF ⟨_, found⟩ (congrArg ReferenceKey.target key)

/-- The beans nested in a bean are those nested in the values of its members. -/
theorem mem_innerDeep_iff_value (rules : List InterceptorRule) (ctx : Context)
    (own : b.definition.IsWellFormed) {i : Bean} :
    i ∈ b.innerDeep ↔ ∃ m v il, memberValue? rules ctx b m = some (v, il) ∧ i ∈ v.innerDeep := by
  have values : b.inner
      = b.arguments.flatMap (·.2.value.inner) ++ b.properties.flatMap (·.value.inner) := by
    rw [Bean.inner, Definition.values, List.flatMap_append, Arguments.values_eq, Bean.arguments,
      Bean.properties]
    simp only [List.flatMap_map]
  have within : i ∈ b.innerDeep ↔ (∃ a ∈ b.arguments, i ∈ a.2.value.innerDeep) ∨
      ∃ p ∈ b.properties, i ∈ p.value.innerDeep := by
    rw [Bean.innerDeep_eq, values, List.flatMap_append, List.mem_append, List.flatMap_assoc,
      List.flatMap_assoc, List.mem_flatMap, List.mem_flatMap]
    rfl
  rw [within]
  constructor
  · rintro (⟨a, there, nested⟩ | ⟨p, there, nested⟩)
    · obtain ⟨position, at'⟩ := List.mem_iff_getElem?.1 there
      refine ⟨.argument position, a.2.value, false, ?_, nested⟩
      rw [memberValue?, at']
      rfl
    · exact ⟨_, _, _, memberValue?_property own there, nested⟩
  · rintro ⟨m, v, il, holds, nested⟩
    cases m with
    | bean => cases holds
    | argument position =>
      obtain ⟨a, there, value⟩ := Option.map_eq_some_iff.1 holds
      cases value
      exact .inl ⟨a, List.mem_of_getElem? there, nested⟩
    | property name =>
      obtain ⟨p, there, value⟩ := Option.map_eq_some_iff.1 holds
      cases value
      exact .inr ⟨p, List.mem_of_find?_eq_some there, nested⟩

/-- Only a member that has a value refers to something. -/
theorem exists_memberValue?_of_hasTarget {target : Bean} (part : m ≠ .bean)
    (refers : HasTarget rules ctx (b.element m) target) :
    ∃ v il, memberValue? rules ctx b m = some (v, il) := by
  cases held : memberValue? rules ctx b m with
  | some holding => exact ⟨holding.1, holding.2, rfl⟩
  | none =>
    obtain ⟨e, listed, -⟩ := refers
    cases m with
    | bean => exact absurd rfl part
    | argument position =>
      have nowhere := Option.map_eq_none_iff.1 held
      rw [Bean.element, references, walk, argumentLinks, nowhere] at listed
      cases listed
    | property name =>
      have nowhere := Option.map_eq_none_iff.1 held
      rw [Bean.element, references, walk, nowhere] at listed
      cases listed

end Members

/-! ## Members against the bean -/

/-- The direct references of a bean include one to the target that comes from one of its values:
from an argument or a property, or from inside an inner bean. -/
def ValueTarget (rules : List InterceptorRule) (ctx : Context) (b target : Bean) : Prop :=
  ∃ e ∈ references rules ctx false (.bean b),
    (e.member ≠ .bean ∨ e.isInner = true) ∧ e.target = target

section Whole

variable {ctx : Context} {b : Bean}

/-- What the values of a bean refer to in the walk over the bean: what its members refer to, and
what the beans nested in their values refer to, unless it is the bean itself. -/
theorem valueTarget_iff (rules : List InterceptorRule) (named : ctx.IsNamed)
    (own : b.definition.IsWellFormed) (target : Bean) :
    ValueTarget rules ctx b target ↔ ∃ m v il, memberValue? rules ctx b m = some (v, il) ∧
      (HasTarget rules ctx (b.element m) target ∨
        target.id ≠ b.id ∧ v.RefersInside rules ctx target) := by
  have credited := leadsTo_innerDeep_iff rules named b
  constructor
  · rintro ⟨e, listed, part | inside, rfl⟩
    · obtain ⟨source, finds⟩ := ends_of_mem_directEdges (mem_directEdges_of_mem_references listed)
      obtain ⟨name, t, mentions, found, same⟩ :=
        (exists_edge_iff part).1 ⟨e, listed, source, rfl, rfl⟩
      obtain ⟨v, il, holds, read⟩ := (memberMentions_iff_value own).1 mentions
      have target : t = e.target := named.eq_of_id ⟨_, found⟩ finds same
      have refers := (hasTarget_member_iff named holds e.target).2 ⟨name, read, target ▸ found⟩
      exact ⟨_, v, il, holds, .inl refers⟩
    · obtain ⟨⟨i, within, refers⟩, other⟩ :=
        (credited e.kind e.target).1 ⟨e, listed, inside, rfl, rfl⟩
      obtain ⟨m, v, il, holds, nested⟩ := (mem_innerDeep_iff_value rules ctx own).1 within
      exact ⟨m, v, il, holds, .inr ⟨other, i, nested, _, refers⟩⟩
  · rintro ⟨m, v, il, holds, refers | ⟨other, i, nested, kind, refers⟩⟩
    · have part := ne_bean_of_memberValue? holds
      obtain ⟨name, read, found⟩ := (hasTarget_member_iff named holds target).1 refers
      have mentions := (memberMentions_iff_value own).2 ⟨v, il, holds, read⟩
      obtain ⟨e, listed, -, member, same⟩ :=
        (exists_edge_iff part).2 ⟨name, target, mentions, found, rfl⟩
      have finds := (ends_of_mem_directEdges (mem_directEdges_of_mem_references listed)).2
      exact ⟨e, listed, .inl (member ▸ part), named.eq_of_id finds ⟨_, found⟩ same⟩
    · have within := (mem_innerDeep_iff_value rules ctx own).2 ⟨m, v, il, holds, nested⟩
      obtain ⟨e, listed, inside, -, target⟩ := (credited kind target).2 ⟨⟨i, within, refers⟩, other⟩
      exact ⟨e, listed, .inr inside, target⟩

/-- **Members.**  A member of a bean refers to what the names stand for that are read of its value,
and to nothing else.  So it refers to all that its value refers to exactly if that includes what
the beans nested in the value refer to and, in an interceptor list, what is mentioned besides the
literals.  The walk over the bean does find what nested beans refer to, but for the bean itself; so
what comes from the values of the bean is what its members refer to exactly if they refer to all
of that. -/
theorem member_references_iff (rules : List InterceptorRule) (named : ctx.IsNamed)
    (own : b.definition.IsWellFormed) :
    (∀ m v il, memberValue? rules ctx b m = some (v, il) →
      (∀ t, HasTarget rules ctx (b.element m) t ↔
        ∃ name ∈ v.namesAs il, ctx.resolve? name = some t) ∧
      ((∀ t, HasTarget rules ctx (b.element m) t ↔ v.RefersTo rules ctx il t) ↔
        (∀ t, v.RefersInside rules ctx t → HasTarget rules ctx (b.element m) t) ∧
        ∀ items, il = true → v = .list items → ∀ name ∈ v.referencedNames, ∀ t,
          ctx.resolve? name = some t → HasTarget rules ctx (b.element m) t)) ∧
    (∀ t, ValueTarget rules ctx b t ↔ ∃ m v il, memberValue? rules ctx b m = some (v, il) ∧
      (HasTarget rules ctx (b.element m) t ∨ t.id ≠ b.id ∧ v.RefersInside rules ctx t)) ∧
    ((∀ t, ValueTarget rules ctx b t ↔ ∃ m, m ≠ .bean ∧ HasTarget rules ctx (b.element m) t) ↔
      ∀ m v il, memberValue? rules ctx b m = some (v, il) → ∀ t, t.id ≠ b.id →
        v.RefersInside rules ctx t → ∃ m', m' ≠ .bean ∧ HasTarget rules ctx (b.element m') t) := by
  have values := valueTarget_iff rules named own
  refine ⟨fun m v il holds => ?_, values, ?_⟩
  · have member := hasTarget_member_iff named holds
    refine ⟨member, ?_⟩
    constructor
    · intro all
      refine ⟨fun t inside => (all t).2 (.inside inside), ?_⟩
      intro items _ _ name there t found
      exact (all t).2 (.mentioned there found)
    · rintro ⟨insides, besides⟩ t
      constructor
      · intro refers
        obtain ⟨name, read, found⟩ := (member t).1 refers
        exact .of_namesAs read found
      · rintro (⟨there, found⟩ | ⟨interceptors, list, there, text, found⟩ | inside)
        · by_cases read : il = true ∧ ∃ items, v = .list items
          · obtain ⟨interceptors, items, list⟩ := read
            exact besides items interceptors list _ there t found
          · refine (member t).2 ⟨_, ?_, found⟩
            cases il with
            | false => rwa [Value.namesAs_false]
            | true => rwa [Value.namesAs_of_ne_list fun items is => read ⟨rfl, items, is⟩]
        · subst interceptors list
          exact (member t).2 ⟨_, Value.mem_namesAs_list_iff.2 ⟨_, there, text⟩, found⟩
        · exact insides t inside
  · constructor
    · intro all m v il holds t other inside
      exact (all t).1 ((values t).2 ⟨m, v, il, holds, .inr ⟨other, inside⟩⟩)
    · intro covered t
      rw [values t]
      constructor
      · rintro ⟨m, v, il, holds, refers | ⟨other, inside⟩⟩
        · exact ⟨m, ne_bean_of_memberValue? holds, refers⟩
        · exact covered m v il holds t other inside
      · rintro ⟨m, part, refers⟩
        obtain ⟨v, il, holds⟩ := exists_memberValue?_of_hasTarget part refers
        exact ⟨m, v, il, holds, .inl refers⟩

end Whole

/-! ### A reference two levels below a property -/

namespace Levels

/-- What the only property of `outer` holds. -/
def nextValue : Value Bean :=
  Bean.resolveValue outer.id (.nested (RoundTrip.declare "" (.nested core) 2))

theorem refersInside_nextValue : nextValue.RefersInside [] context dep := by
  refine ⟨coreBean, ?_, .standard, ?_⟩
  · refine List.mem_flatMap.2 ⟨_, List.mem_cons_self, List.mem_cons_of_mem _ ?_⟩
    exact Bean.mem_innerDeep_iff.2 ⟨_, List.mem_cons_self, .inl rfl⟩
  · refine ⟨⟨.standard, coreBean, .property "next", dep, "beans.xml", false⟩, ?_, rfl, rfl, rfl⟩
    rw [references_coreBean]
    exact List.mem_cons_self

/-- The bean `outer` refers to `dep` through its property, and the property itself does not. -/
theorem dep_of_outer_of_no_member :
    context.IsNamed ∧ outer.definition.IsWellFormed ∧
      memberValue? [] context outer (.property "next") = some (nextValue, false) ∧
      nextValue.RefersTo [] context false dep ∧ ValueTarget [] context outer dep ∧
      ¬HasTarget [] context (outer.element (.property "next")) dep := by
  have own : outer.definition.IsWellFormed := by decide
  have holds : memberValue? [] context outer (.property "next") = some (nextValue, false) := rfl
  obtain ⟨members, values, -⟩ := member_references_iff [] isNamed_levels own
  refine ⟨isNamed_levels, own, holds, .inside refersInside_nextValue, ?_, ?_⟩
  · exact (values dep).2 ⟨_, _, _, holds, .inr ⟨by decide, refersInside_nextValue⟩⟩
  · intro refers
    obtain ⟨name, read, -⟩ := ((members _ _ _ holds).1 dep).1 refers
    cases read

end Levels

end BeanWiring
