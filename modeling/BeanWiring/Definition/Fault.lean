/-
# Faults of a definition

What is wrong with the shape of a definition on its own, before any name in it is
looked up.
-/
import BeanWiring.Definition.Basic

namespace BeanWiring

/-- A definition that cannot describe a bean. -/
inductive DefinitionFault where
  /-- A factory method makes the instance, so its methods cannot be overridden. -/
  | factoryMethodWithOverrides
  /-- Nothing says what to instantiate. -/
  | missingClass
  /-- A factory method without anything to call it on. -/
  | factoryMethodWithoutTarget
deriving DecidableEq

namespace DefinitionFault

/-- The text of a fault. -/
def message : DefinitionFault → String
  | factoryMethodWithOverrides =>
    "Cannot combine static factory method with method overrides: " ++
      "the static factory method must create the instance"
  | missingClass => "Bean definition requires a class, a parent bean or a factory bean"
  | factoryMethodWithoutTarget => "Factory method requires a class or a factory bean"

end DefinitionFault

namespace Definition

variable {V : Type}

/-- The fault of a definition, if it has one; an abstract one needs no class. -/
def fault? (d : Definition V) : Option DefinitionFault :=
  if !d.overrides.isEmpty && d.factoryMethod.isSome then
    some .factoryMethodWithOverrides
  else if d.isAbstract || d.className.isSome || d.parent.isSome || d.factoryBean.isSome then
    none
  else if d.factoryMethod.isSome then
    some .factoryMethodWithoutTarget
  else
    some .missingClass

end Definition

end BeanWiring
