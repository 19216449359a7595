/-
# Bean registries

A table of beans and aliases that is filled in order, one declaration after the other,
so that a clash of names shows exactly where it happens.  Whether a later bean or
alias may replace an earlier one is a policy of the registry.

Main statement: `registerBean_isError_iff`, when a bean is refused.
-/
import BeanWiring.Lookup.Context

namespace BeanWiring

/-- Why something cannot be registered or found. -/
inductive RegistryError where
  | duplicateBean (name existingResource : String)
  | duplicateAlias (name beanName existingBean : String)
  | aliasEqualsName (name : String)
  | unknownBean (name : String)
deriving DecidableEq

/-- The text of a registry error. -/
def RegistryError.message : RegistryError → String
  | duplicateBean name existing =>
    "Cannot register bean definition for bean '" ++ name ++ "': there is already a bean '" ++
      name ++ "' bound from '" ++ existing ++ "'"
  | duplicateAlias name beanName existing =>
    "Cannot register alias '" ++ name ++ "' for bean '" ++ beanName ++
      "': it is already registered for bean '" ++ existing ++ "'"
  | aliasEqualsName name => "Alias '" ++ name ++ "' is the same as the bean name"
  | unknownBean name => "No bean named '" ++ name ++ "' is defined"

/-- The word for the kind of a registry error. -/
def RegistryError.kind : RegistryError → String
  | duplicateBean _ _ => "DuplicateBean"
  | duplicateAlias _ _ _ => "DuplicateAlias"
  | aliasEqualsName _ => "AliasEqualsName"
  | unknownBean _ => "UnknownBean"

/-- Beans and aliases by name, components, and what may be replaced. -/
structure Registry where
  name : String
  kind : ContextKind
  allowBeanOverriding : Bool
  allowAliasOverriding : Bool
  beans : List Bean := []
  aliases : List BeanAlias := []
  components : List Component := []

namespace Registry

/-- A registry for a config on its own, where nothing may be replaced. -/
def forConfig (name : String) : Registry := ⟨name, .config, false, false, [], [], []⟩

/-- A registry for the configs of a set. -/
def forConfigSet (name : String) (allowBeans allowAliases : Bool) : Registry :=
  ⟨name, .configSet, allowBeans, allowAliases, [], [], []⟩

/-- The registry as a context in which names are looked up. -/
def toContext (r : Registry) : Context :=
  ⟨r.name, r.kind, r.beans, r.aliases, r.components⟩

/-! ## Registration -/

/-- Registers a bean under its name. -/
def registerBean (r : Registry) (b : Bean) : Except RegistryError Registry :=
  match Keyed.get? Bean.name b.name r.beans with
  | some existing =>
    if r.allowBeanOverriding then .ok { r with beans := Keyed.put Bean.name b r.beans }
    else .error (.duplicateBean b.name existing.resource)
  | none => .ok { r with beans := Keyed.put Bean.name b r.beans }

/-- Registers an alias; repeating one for the same bean changes nothing. -/
def registerAlias (r : Registry) (a : BeanAlias) : Except RegistryError Registry :=
  if a.name = a.beanName then
    .error (.aliasEqualsName a.name)
  else
    match Keyed.get? BeanAlias.name a.name r.aliases with
    | some existing =>
      if existing.beanName = a.beanName then .ok r
      else if r.allowAliasOverriding then
        .ok { r with aliases := Keyed.put BeanAlias.name a r.aliases }
      else .error (.duplicateAlias a.name a.beanName existing.beanName)
    | none => .ok { r with aliases := Keyed.put BeanAlias.name a r.aliases }

/-- Registers a component. -/
def registerComponent (r : Registry) (c : Component) : Registry :=
  { r with components := r.components ++ [c] }

/-- The registry after a registration, unchanged if that failed. -/
def orUnchanged (r : Registry) (result : Except RegistryError Registry) : Registry :=
  match result with
  | .ok r => r
  | .error _ => r

/-- The aliases that a bean declares for itself. -/
def ownAliases (b : Bean) : List BeanAlias :=
  b.aliases.map fun name => ⟨name, b.name, b.location⟩

/-- Registers a bean and its own aliases, passing over clashes. -/
def registerWithAliases (r : Registry) (b : Bean) : Registry :=
  (ownAliases b).foldl (fun r a => r.orUnchanged (r.registerAlias a))
    (r.orUnchanged (r.registerBean b))

/-- Registers everything that a context declares, passing over clashes. -/
def registerAll (r : Registry) (ctx : Context) : Registry :=
  let r := ctx.beans.foldl registerWithAliases r
  let r := ctx.aliases.foldl (fun r a => r.orUnchanged (r.registerAlias a)) r
  ctx.components.foldl registerComponent r

/-! ## Queries -/

/-- Whether a bean is registered under the name itself. -/
def containsBean (r : Registry) (name : String) : Bool :=
  Keyed.has Bean.name name r.beans

/-- Whether an alias of the name is registered. -/
def containsAlias (r : Registry) (name : String) : Bool :=
  Keyed.has BeanAlias.name name r.aliases

/-- The bean that a name stands for. -/
def definition (r : Registry) (name : String) : Except RegistryError Bean :=
  match r.toContext.resolve? name with
  | some b => .ok b
  | none => .error (.unknownBean name)

/-- Number of registered beans. -/
def size (r : Registry) : Nat := r.beans.length

/-! ## Laws of registration -/

/-- A bean is refused exactly if its name is taken and nothing may be replaced. -/
theorem registerBean_isError_iff (r : Registry) (b : Bean) :
    (∃ e, r.registerBean b = .error e)
      ↔ r.containsBean b.name = true ∧ r.allowBeanOverriding = false := by
  unfold registerBean containsBean
  rw [Keyed.has_eq_isSome]
  cases found : Keyed.get? Bean.name b.name r.beans with
  | none => simp
  | some existing => cases r.allowBeanOverriding <;> simp

end Registry

end BeanWiring
