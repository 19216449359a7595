/-
# Reference walks

The beans that a bean, one of its arguments or properties, or a component depends on,
as edges from a source to the bean that a name stands for.

A *direct* walk lists the edges of one bean, with those found inside its inner beans
credited to it.  A *deep* walk goes on from each target that it meets for the first
time; a bean counts as met before its own edges are collected, so cycles end.
-/
import BeanWiring.Lookup.Ancestry
import BeanWiring.Reference.Edge

namespace BeanWiring

/-! ## Interceptor lists -/

/-- Literals in the property `property` of beans of class `typeName` are bean names. -/
structure InterceptorRule where
  typeName : String
  property : String
deriving DecidableEq

/-- The rule for proxies, whose interceptors are listed by name. -/
def InterceptorRule.proxy : InterceptorRule :=
  ⟨"org.springframework.aop.framework.ProxyFactoryBean", "interceptorNames"⟩

/-- Whether a property of a bean is an interceptor list, with the names looked up to tell.
The class matters only where some rule is about the property. -/
def searchInterceptors (rules : List InterceptorRule) (ctx : Context) (b : Bean)
    (property : String) : Bool × List String :=
  let matching := rules.filter (·.property = property)
  if matching.isEmpty then
    (false, [])
  else
    let (className, asked) := searchClass ctx b
    (matching.any fun rule => className = some rule.typeName, asked)

/-- Whether a property of a bean is an interceptor list. -/
def isInterceptorList (rules : List InterceptorRule) (ctx : Context) (b : Bean)
    (property : String) : Bool :=
  (searchInterceptors rules ctx b property).1

/-! ## Links -/

/-- A named reference from a part of a bean. -/
structure Link where
  member : Member
  reference : NamedReference

/-- The links of the argument at a position. -/
def argumentLinks (b : Bean) (position : Nat) : List Link :=
  match b.arguments[position]? with
  | some (_, a) => (a.value.namedReferences false).map (⟨.argument position, ·⟩)
  | none => []

/-- The links of a property, with the names looked up to find them. -/
def propertyLinks (rules : List InterceptorRule) (ctx : Context) (b : Bean)
    (p : Property (Value Bean)) : List Link × List String :=
  let (interceptors, asked) := searchInterceptors rules ctx b p.name
  ((p.value.namedReferences interceptors).map (⟨.property p.name, ·⟩), asked)

/-- The links of a bean apart from its parent, given the definition that its references
outside values are taken from, with the names looked up to find them. -/
def beanLinks (rules : List InterceptorRule) (ctx : Context) (b : Bean)
    (definition : Definition (Value Declaration)) : List Link × List String :=
  let properties := b.properties.map (propertyLinks rules ctx b)
  (definition.namedReferences.map (⟨.bean, ·⟩) ++
      (List.range b.arguments.length).flatMap (argumentLinks b) ++
      properties.flatMap (·.1),
    properties.flatMap (·.2))

/-! ## Walks -/

/-- The state of a walk. -/
structure Walk where
  edges : EdgeSet := {}
  /-- The beans met so far. -/
  visited : List BeanId := []
  /-- The names looked up so far. -/
  asked : List String := []

namespace Walk

/-- Notes names that were looked up. -/
def ask (w : Walk) (names : List String) : Walk :=
  { w with asked := names ++ w.asked }

/-- Records an edge, and says whether its target is to be walked as well: it is new to the
walk, and so is the edge.  A bean as a whole has no edge to itself. -/
def add (ctx : Context) (w : Walk) (kind : ReferenceKind) (source : Bean) (member : Member)
    (target : Bean) : Walk × Bool :=
  if member = .bean ∧ source.id = target.id then
    (w, false)
  else
    let edge : Reference := ⟨kind, source, member, target, ctx.name, false⟩
    let expand := !w.edges.has edge.key && decide (target.id ∉ w.visited)
    ({ w with edges := w.edges.insert edge }, expand)

/-- Follows a link: looks its name up and records the edge.  A target to be walked goes to
`visit`. -/
def follow (visit : Walk → Bean → Walk) (ctx : Context) (source : Bean) (w : Walk) (l : Link) :
    Walk :=
  let w := w.ask [l.reference.beanName]
  match ctx.resolve? l.reference.beanName with
  | none => w
  | some target =>
    let (w, expand) := w.add ctx l.reference.kind source l.member target
    if expand then visit w target else w

/-- Credits edges found in an inner bean to the bean around it. -/
def credit (source : Bean) (w : Walk) (found : Walk) : Walk :=
  let credited := (found.edges.toList.filter (·.target.id ≠ source.id)).map
    (·.creditedTo source)
  { w.ask found.asked with edges := credited.foldl EdgeSet.insert w.edges }

end Walk

/-- The link of a bean to its parent, if it has one. -/
def parentLink (b : Bean) : List Link :=
  b.parent.toList.map fun name => ⟨.bean, ⟨.parent, name⟩⟩

mutual

/-- The walk along the edges of one bean. -/
def directWalk (rules : List InterceptorRule) (ctx : Context) : Nest → Walk
  | .node b inner =>
    let (links, asked) := beanLinks rules ctx b b.definition
    let w := (parentLink b ++ links).foldl (Walk.follow (fun w _ => w) ctx b) {}
    creditAll rules ctx b (w.ask asked) inner

/-- Credits the edges of inner beans, walked one by one, to the bean around them. -/
def creditAll (rules : List InterceptorRule) (ctx : Context) (b : Bean) (w : Walk) :
    List Nest → Walk
  | [] => w
  | n :: ns => creditAll rules ctx b (w.credit b (directWalk rules ctx n)) ns

end

/-! ## Deep walks -/

/-- Edges to the ancestors of a bean beyond its parent, along parent names; a name already
followed ends them. -/
def ancestorEdges (visit : Walk → Bean → Walk) (ctx : Context) (source : Bean) :
    (fuel : Nat) → (followed : List String) → (current : Bean) → Walk → Walk
  | 0, _, _, w => w
  | fuel + 1, followed, current, w =>
    match current.parent with
    | none => w
    | some name =>
      if name ∈ followed then
        w
      else
        let w := w.ask [name]
        match ctx.resolve? name with
        | none => w
        | some next =>
          let (w, expand) := w.add ctx .parent source .bean next
          let w := if expand then visit w next else w
          ancestorEdges visit ctx source fuel (name :: followed) next w

/-- The edge of a bean to its parent and, where the parent is to be walked, the parent's own
edges and the edges of the bean to its further ancestors. -/
def parentEdges (visit : Walk → Bean → Walk) (ctx : Context) (b : Bean) (w : Walk) : Walk :=
  match b.parent with
  | none => w
  | some name =>
    let w := w.ask [name]
    match ctx.resolve? name with
    | none => w
    | some parent =>
      let (w, expand) := w.add ctx .parent b .bean parent
      if expand then
        ancestorEdges visit ctx b (ctx.allBeans.length + 2) [parent.name, b.name] parent
          (visit w parent)
      else
        w

/-- Walks a bean that is met, and on from its targets.  A walk meets each bean once, so a
fuel above the number of beans is never used up. -/
def expand (rules : List InterceptorRule) (ctx : Context) : (fuel : Nat) → Walk → Bean → Walk
  | 0, w, _ => w
  | fuel + 1, w, b =>
    let visit := fun (w : Walk) (b : Bean) =>
      if b.id ∈ w.visited then w
      else expand rules ctx fuel { w with visited := b.id :: w.visited } b
    let w := parentEdges visit ctx b w
    let w := w.ask (ancestorsAsked ctx b)
    let (links, asked) := beanLinks rules ctx b (merged ctx b)
    let w := links.foldl (Walk.follow visit ctx b) w
    creditAll rules ctx b (w.ask asked) b.nest.inner

/-- Walks a bean unless it was met before. -/
def visitDeep (rules : List InterceptorRule) (ctx : Context) (w : Walk) (b : Bean) : Walk :=
  if b.id ∈ w.visited then w
  else expand rules ctx (ctx.allBeans.length + 2) { w with visited := b.id :: w.visited } b

/-- Lists the direct edges of a bean unless it was met before. -/
def visitDirect (rules : List InterceptorRule) (ctx : Context) (w : Walk) (b : Bean) : Walk :=
  if b.id ∈ w.visited then
    w
  else
    let found := directWalk rules ctx b.nest
    { edges := found.edges.toList.foldl EdgeSet.insert w.edges
      visited := b.id :: w.visited
      asked := found.asked ++ w.asked }

/-! ## References of an element -/

/-- Where a walk starts. -/
inductive ReferenceElement where
  | bean (bean : Bean)
  | argument (bean : Bean) (position : Nat)
  | property (bean : Bean) (name : String)
  | component (component : Component)

/-- The walk from an element; a deep one goes on from its targets. -/
def walk (rules : List InterceptorRule) (ctx : Context) (deep : Bool) :
    ReferenceElement → Walk
  | .bean b => if deep then visitDeep rules ctx {} b else visitDirect rules ctx {} b
  | .argument b position =>
    let visit := if deep then visitDeep rules ctx else fun w _ => w
    (argumentLinks b position).foldl (Walk.follow visit ctx b) {}
  | .property b name =>
    let visit := if deep then visitDeep rules ctx else fun w _ => w
    match b.property? name with
    | none => {}
    | some p =>
      let (links, asked) := propertyLinks rules ctx b p
      links.foldl (Walk.follow visit ctx b) (Walk.ask {} asked)
  | .component c =>
    let visit := if deep then visitDeep rules ctx else visitDirect rules ctx
    c.allBeans.foldl visit {}

/-- The references of an element: all edges of its walk. -/
def references (rules : List InterceptorRule) (ctx : Context) (deep : Bool)
    (element : ReferenceElement) : List Reference :=
  (walk rules ctx deep element).edges.toList

end BeanWiring
