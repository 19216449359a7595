/-
# Findings

What a validation can find wrong with a bean or an alias.  A finding is a cause; its
severity, code, wording and subject follow from it, and `Report.toDiagnostic` attaches
it to a line.
-/
import BeanWiring.Definition.Fault
import BeanWiring.Registry

namespace BeanWiring

/-- Something wrong with a bean. -/
inductive Finding where
  /-- The bean's name is taken, within a set or in its own config. -/
  | nameTaken (set : Option String) (error : RegistryError)
  /-- One of the bean's own aliases cannot be registered. -/
  | aliasRefused (name : String) (error : RegistryError)
  | invalidDefinition (fault : DefinitionFault)
  | classNotFound (className : String)
  | noConstructor (count : Nat) (className : String)
  | noInitMethod (method className : String)
  | noDestroyMethod (method className : String)
  /-- A nested property `property` starts with a segment that cannot be read. -/
  | noGetter (segment className property : String)
  /-- The property `name`, without its keys, cannot be set. -/
  | noSetter (name className property : String)
  | factoryClassNotFound (className : String)
  | noFactoryMethod (isStatic : Bool) (method className : String)
  | ownParent (name : String)
  | parentNotFound (name : String) (set : Option String)
  | dependsOnInvalid (name : String)
  | dependsOnNotFound (name : String)
  | factoryWithoutMethod (factory : String)
  | referenceInvalid (name : String)
  | referenceNotFound (name : String)
  /-- A marked reference `name` to a factory that does not exist. -/
  | factoryReferenceNotFound (factory name : String)
  | factoryReferenceClassNotFound (factory name : String)
  | factoryReferenceNoFactory (factory name : String)
  | ownFactory (name : String)
  | factoryNotFound (name : String)
  | factoryInvalid (name : String)
deriving DecidableEq

namespace Finding

/-- What makes a bean unfit to be referred to. -/
def invalidTarget : String := "is invalid (abstract or no bean class and no factory bean)"

/-- How grave a finding is: what may be declared elsewhere is a warning. -/
def severity : Finding → Severity
  | parentNotFound _ _ => .warning
  | dependsOnNotFound _ => .warning
  | referenceNotFound _ => .warning
  | factoryReferenceNotFound _ _ => .warning
  | factoryReferenceClassNotFound _ _ => .warning
  | _ => .error

/-- The stable word for the kind of finding. -/
def code : Finding → String
  | nameTaken _ _ => "BEAN_OVERRIDE"
  | aliasRefused _ _ => "INVALID_BEAN_ALIAS"
  | invalidDefinition _ => "INVALID_BEAN_DEFINITION"
  | classNotFound _ => "CLASS_NOT_FOUND"
  | noConstructor _ _ => "NO_CONSTRUCTOR"
  | noInitMethod _ _ => "UNDEFINED_INIT_METHOD"
  | noDestroyMethod _ _ => "UNDEFINED_DESTROY_METHOD"
  | noGetter _ _ _ => "NO_GETTER"
  | noSetter _ _ _ => "NO_SETTER"
  | factoryClassNotFound _ => "CLASS_NOT_FOUND"
  | noFactoryMethod _ _ _ => "UNDEFINED_FACTORY_BEAN_METHOD"
  | ownParent _ => "UNDEFINED_PARENT_BEAN"
  | parentNotFound _ _ => "UNDEFINED_PARENT_BEAN"
  | dependsOnInvalid _ => "INVALID_DEPENDS_ON_BEAN"
  | dependsOnNotFound _ => "UNDEFINED_DEPENDS_ON_BEAN"
  | factoryWithoutMethod _ => "UNDEFINED_FACTORY_BEAN_METHOD"
  | referenceInvalid _ => "INVALID_REFERENCED_BEAN"
  | referenceNotFound _ => "UNDEFINED_REFERENCED_BEAN"
  | factoryReferenceNotFound _ _ => "UNDEFINED_FACTORY_BEAN"
  | factoryReferenceClassNotFound _ _ => "INVALID_REFERENCED_BEAN"
  | factoryReferenceNoFactory _ _ => "INVALID_FACTORY_BEAN"
  | ownFactory _ => "UNDEFINED_FACTORY_BEAN"
  | factoryNotFound _ => "UNDEFINED_FACTORY_BEAN"
  | factoryInvalid _ => "INVALID_FACTORY_BEAN"

/-- The wording of a finding. -/
def message : Finding → String
  | nameTaken (some set) _ => "Overrides another bean within config set '" ++ set ++ "'"
  | nameTaken none error => error.message
  | aliasRefused _ error => error.message
  | invalidDefinition fault => "Invalid bean definition: " ++ fault.message
  | classNotFound className => "Class '" ++ className ++ "' not found"
  | noConstructor count className =>
    "No public constructor with " ++ toString count ++
      (if count = 1 then " argument" else " arguments") ++
      " defined in class '" ++ className ++ "'"
  | noInitMethod method className =>
    "Init-method '" ++ method ++ "' not found in bean class '" ++ className ++ "'"
  | noDestroyMethod method className =>
    "Destroy-method '" ++ method ++ "' not found in bean class '" ++ className ++ "'"
  | noGetter segment className _ =>
    "No getter found for nested property '" ++ segment ++ "' in class '" ++ className ++ "'"
  | noSetter name className _ =>
    "No setter found for property '" ++ name ++ "' in class '" ++ className ++ "'"
  | factoryClassNotFound className => "Factory bean class '" ++ className ++ "' not found"
  | noFactoryMethod isStatic method className =>
    (if isStatic then "Static" else "Instance") ++ " factory method '" ++ method ++
      "' in factory bean class '" ++ className ++ "' not found"
  | ownParent _ => "Bean name and parent bean name are the same"
  | parentNotFound name (some set) =>
    "Parent bean '" ++ name ++ "' not found in config set '" ++ set ++ "'"
  | parentNotFound name none => "Parent bean '" ++ name ++ "' not found"
  | dependsOnInvalid name => "Referenced depends-on bean '" ++ name ++ "' " ++ invalidTarget
  | dependsOnNotFound name => "Depends-on bean '" ++ name ++ "' not found"
  | factoryWithoutMethod factory =>
    "No factory method specified for factory bean '" ++ factory ++ "'"
  | referenceInvalid name => "Referenced bean '" ++ name ++ "' " ++ invalidTarget
  | referenceNotFound name => "Referenced bean '" ++ name ++ "' not found"
  | factoryReferenceNotFound factory _ => "Referenced factory bean '" ++ factory ++ "' not found"
  | factoryReferenceClassNotFound factory _ =>
    "Referenced factory bean '" ++ factory ++ "' implementation class not found"
  | factoryReferenceNoFactory factory _ =>
    "Referenced factory bean '" ++ factory ++ "' does not implement the FactoryBean interface"
  | ownFactory _ => "Bean name and factory bean name are the same"
  | factoryNotFound name => "Factory bean '" ++ name ++ "' not found"
  | factoryInvalid name => "Invalid factory bean '" ++ name ++ "'"

/-- What the finding is about. -/
def subject? : Finding → Option String
  | nameTaken set _ => set
  | aliasRefused name _ => some name
  | invalidDefinition _ => none
  | classNotFound className => some className
  | noConstructor _ className => some className
  | noInitMethod method _ => some method
  | noDestroyMethod method _ => some method
  | noGetter _ _ property => some property
  | noSetter _ _ property => some property
  | factoryClassNotFound className => some className
  | noFactoryMethod _ method _ => some method
  | ownParent name => some name
  | parentNotFound name _ => some name
  | dependsOnInvalid name => some name
  | dependsOnNotFound name => some name
  | factoryWithoutMethod factory => some factory
  | referenceInvalid name => some name
  | referenceNotFound name => some name
  | factoryReferenceNotFound _ name => some name
  | factoryReferenceClassNotFound _ name => some name
  | factoryReferenceNoFactory _ name => some name
  | ownFactory name => some name
  | factoryNotFound name => some name
  | factoryInvalid name => some name

end Finding

/-- Something wrong with an alias declared on its own. -/
inductive AliasFinding where
  | refused (error : RegistryError)
  | targetNotFound
deriving DecidableEq

/-- A diagnostic about a bean at a line of its resource. -/
def beanDiagnostic (severity : Severity) (b : Bean) (line : Nat) (code message : String)
    (subject : Option String) : Diagnostic :=
  { severity, resource := b.resource, line, message
    code := some code
    bean := some b.name
    details := subject.toList.map fun s => (Diagnostic.subjectKey, s) }

/-- A finding where it was made. -/
inductive Report where
  | bean (bean : Bean) (line : Nat) (finding : Finding)
  | aliasing (about : BeanAlias) (finding : AliasFinding)

/-- The diagnostic that reports a finding. -/
def Report.toDiagnostic : Report → Diagnostic
  | bean b line f => beanDiagnostic f.severity b line f.code f.message f.subject?
  | aliasing a (.refused error) =>
    { Diagnostic.atLocation .error a.location error.message with
      code := some "INVALID_BEAN_ALIAS"
      bean := some a.beanName
      details := [(Diagnostic.subjectKey, a.name)] }
  | aliasing a .targetNotFound =>
    { Diagnostic.atLocation .warning a.location
        ("Alias '" ++ a.name ++ "' refers to undefined bean '" ++ a.beanName ++ "'") with
      code := some "UNDEFINED_ALIAS_TARGET"
      bean := some a.beanName
      details := [(Diagnostic.subjectKey, a.name)] }

theorem subject?_toDiagnostic_bean (b : Bean) (line : Nat) (f : Finding) :
    (Report.bean b line f).toDiagnostic.subject? = f.subject? := by
  cases h : f.subject? <;>
    simp [Report.toDiagnostic, beanDiagnostic, Diagnostic.subject?, h]

end BeanWiring
