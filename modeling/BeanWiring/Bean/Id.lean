/-
# Identity of beans

A bean with a name of its own is identified by its resource and name, an inner bean
by the bean that it is nested in and the line it starts on.  Two inner beans that
start on one line of one bean therefore share their identity.
-/

namespace BeanWiring

/-- The identity of a bean. -/
inductive BeanId where
  | named (resource name : String)
  | inner (owner : BeanId) (line : Nat)
deriving DecidableEq

namespace BeanId

/-- The resource in which the bean is declared. -/
def resource : BeanId → String
  | named resource _ => resource
  | inner owner _ => owner.resource

/-- The identity of the named bean around it, or its own. -/
def topLevel : BeanId → BeanId
  | named resource name => named resource name
  | inner owner _ => owner.topLevel

/-- The text `resource#name`, with `/inner@line` for each level of nesting. -/
def text : BeanId → String
  | named resource name => resource ++ "#" ++ name
  | inner owner line => owner.text ++ "/inner@" ++ toString line

/-- A hash of an identity. -/
protected def hash : BeanId → UInt64
  | named resource name => mixHash (Hashable.hash resource) (Hashable.hash name)
  | inner owner line => mixHash owner.hash (Hashable.hash line)

instance : Hashable BeanId := ⟨BeanId.hash⟩

/-- Order of identities: named ones by resource and name, then inner ones by owner and
line. -/
def order : BeanId → BeanId → Ordering
  | named r₁ n₁, named r₂ n₂ => (compare r₁ r₂).then (compare n₁ n₂)
  | named _ _, inner _ _ => .lt
  | inner _ _, named _ _ => .gt
  | inner o₁ l₁, inner o₂ l₂ => (o₁.order o₂).then (compare l₁ l₂)

/-- A list of identities in order. -/
def sort (ids : List BeanId) : List BeanId :=
  ids.mergeSort fun a b => (a.order b).isLE

/-- The bean around an inner one is declared in the same resource. -/
theorem resource_topLevel : (id : BeanId) → id.topLevel.resource = id.resource
  | named _ _ => rfl
  | inner owner _ => resource_topLevel owner

theorem topLevel_topLevel : (id : BeanId) → id.topLevel.topLevel = id.topLevel
  | named _ _ => rfl
  | inner owner _ => topLevel_topLevel owner

end BeanId

end BeanWiring
