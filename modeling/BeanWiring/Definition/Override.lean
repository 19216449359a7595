/-
# Overriding a definition

Laying one definition over another, the step of which inheritance is made: a field
changes where the overriding definition declares it.  `abstract` and the location
are always those of the overriding definition, and the parent is always that of the
overridden one.

Main statement: `property?_overrideWith`, the look-up of a property.
-/
import BeanWiring.Definition.Content

namespace BeanWiring

/-- A text field counts as declared when it is not empty. -/
def nonEmpty (text : Option String) : Option String :=
  text.filter (· ≠ "")

/-! ## Arguments -/

namespace Arguments

variable {V : Type} [BEq V]

/-- Appends an argument unless one of the same content is there. -/
def addDistinct (args : List (Argument V)) (a : Argument V) : List (Argument V) :=
  if args.any (·.sameContent a) then args else args ++ [a]

/-- Indexed arguments replace those at their index; others are appended where new. -/
def overrideWith (base other : Arguments V) : Arguments V where
  indexed := other.indexed.foldl (fun args p => insertAt p.1 p.2 args) base.indexed
  generic := other.generic.foldl addDistinct base.generic

end Arguments

/-! ## Definitions -/

/-- Appends a method override unless it is there already. -/
def addOverride (overrides : List MethodOverride) (o : MethodOverride) : List MethodOverride :=
  if overrides.contains o then overrides else overrides ++ [o]

namespace Definition

variable {V : Type} [BEq V]

/-- The definition `base` with everything that `other` declares laid over it. -/
def overrideWith (base other : Definition V) : Definition V where
  className := other.className.or base.className
  parent := base.parent
  scope := (nonEmpty other.scope).or base.scope
  isAbstract := other.isAbstract
  lazyInit := other.lazyInit.or base.lazyInit
  autowire := other.autowire.or base.autowire
  dependencyCheck := other.dependencyCheck.or base.dependencyCheck
  role := other.role.or base.role
  dependsOn := if other.dependsOn.isEmpty then base.dependsOn else other.dependsOn
  factoryBean := other.factoryBean.or base.factoryBean
  factoryMethod := other.factoryMethod.or base.factoryMethod
  initMethod := (nonEmpty other.initMethod).or base.initMethod
  destroyMethod := (nonEmpty other.destroyMethod).or base.destroyMethod
  arguments := base.arguments.overrideWith other.arguments
  properties := other.properties.foldl (fun ps p => Keyed.put Property.name p ps) base.properties
  overrides := other.overrides.foldl addOverride base.overrides
  location := other.location

/-- A property is that of the overriding definition, or else that of the base. -/
theorem property?_overrideWith (base other : Definition V) (name : String)
    (distinct : (other.properties.map Property.name).Nodup) :
    (base.overrideWith other).property? name
      = (other.property? name).or (base.property? name) := by
  simp only [property?, overrideWith]
  generalize other.properties = ps at distinct
  generalize base.properties = qs
  induction ps generalizing qs with
  | nil => simp [Keyed.get?]
  | cons p ps ih =>
    simp only [List.map_cons, List.nodup_cons] at distinct
    rw [List.foldl_cons, ih distinct.2, Keyed.get?_put]
    by_cases h : p.name = name
    · have : Keyed.get? Property.name name ps = none := by
        rw [Keyed.get?, List.find?_eq_none]
        intro q hq
        have : q.name ≠ p.name := fun e => distinct.1 (e ▸ List.mem_map_of_mem hq)
        simp [h ▸ this]
      rw [this, if_pos h]
      simp [Keyed.get?, h]
    · rw [if_neg h]
      simp [Keyed.get?, h]

end Definition

end BeanWiring
