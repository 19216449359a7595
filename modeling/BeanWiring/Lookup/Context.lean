/-
# Look-up contexts

Where names are looked up: the beans, aliases and components of one config, of a
config set, or of a registry in the making.  A name stands for the bean registered
under it, or else for the target of the alias of that name, or else for a bean of a
component.

Main statement: `resolve?_mem`, that what a name resolves to is one of the context's
beans, which bounds every walk along names.
-/
import BeanWiring.Component

namespace BeanWiring

/-- A further name for a bean, declared on its own. -/
structure BeanAlias where
  name : String
  beanName : String
  location : Location
deriving DecidableEq

/-- The kind of a context. -/
inductive ContextKind where
  | config
  | configSet
deriving DecidableEq

/-- A way to a bean: a name, and then positions among inner beans. -/
structure BeanPath where
  name : String
  inner : List Nat := []
deriving DecidableEq

/-- The word for a kind of context. -/
def ContextKind.name : ContextKind → String
  | config => "config"
  | configSet => "config_set"

/-- The beans, aliases and components among which names are looked up. -/
structure Context where
  name : String
  kind : ContextKind
  beans : List Bean := []
  aliases : List BeanAlias := []
  components : List Component := []

namespace Context

/-- The first bean of a name. -/
def bean? (ctx : Context) (name : String) : Option Bean :=
  Keyed.get? Bean.name name ctx.beans

/-- The first alias of a name. -/
def aliasOf? (ctx : Context) (name : String) : Option BeanAlias :=
  Keyed.get? BeanAlias.name name ctx.aliases

/-- The bean that a name stands for: bean, alias, bean of a component, in this order. -/
def resolve? (ctx : Context) (name : String) : Option Bean :=
  ((ctx.bean? name).or ((ctx.aliasOf? name).bind fun a => ctx.bean? a.beanName)).or
    (findInComponents? name ctx.components)

/-- The bean that a path leads to. -/
def select? (ctx : Context) (path : BeanPath) : Option Bean :=
  (ctx.resolve? path.name).bind fun b => b.innerAt? path.inner

/-- The beans that names can stand for. -/
def allBeans (ctx : Context) : List Bean :=
  ctx.beans ++ beansOfComponents ctx.components

theorem bean?_mem {ctx : Context} {name : String} {b : Bean} (h : ctx.bean? name = some b) :
    b ∈ ctx.beans :=
  List.mem_of_find?_eq_some h

/-- A name only resolves to a bean of the context. -/
theorem resolve?_mem {ctx : Context} {name : String} {b : Bean}
    (h : ctx.resolve? name = some b) : b ∈ ctx.allBeans := by
  unfold resolve? at h
  unfold allBeans
  rw [List.mem_append]
  rcases Option.or_eq_some_iff.1 h with h | ⟨-, h⟩
  · left
    rcases Option.or_eq_some_iff.1 h with h | ⟨-, h⟩
    · exact bean?_mem h
    · obtain ⟨a, -, ha⟩ := Option.bind_eq_some_iff.1 h
      exact bean?_mem ha
  · right
    rw [findInComponents?_eq_find?] at h
    exact List.mem_of_find?_eq_some h

end Context

end BeanWiring
