/-
# Checking references

The second pass of a validation: every name that a bean mentions is looked up in the
registry that the first pass has filled.  A missing bean is a warning where it may be
declared elsewhere, and an error where the bean cannot work without it.
-/
import BeanWiring.Validation.Declarations

namespace BeanWiring.Validator

open Check

/-! ## Single names -/

/-- Whether a bean cannot be used by others: it is abstract, or nothing makes it. -/
def isInvalidTarget (target : Bean) : Check Bool := do
  let d ← mergedDefinition target
  return d.isAbstract || (d.className.isNone && d.factoryBean.isNone)

/-- Checks the parent that a bean names. -/
def checkParent (v : Validator) (set : Option String) (b : Bean) : Check Unit := do
  match b.parent with
  | none => pure ()
  | some parent =>
    if parent = b.name then
      report b (.ownParent parent)
    else if !v.ignores parent && ((← context).resolve? parent).isNone then
      report b (.parentNotFound parent set)

/-- Checks a reference to a factory itself, whose name does not resolve with its mark. -/
def checkFactoryReference (v : Validator) (b : Bean) (line : Nat) (name : String) :
    Check Unit := do
  let factory := stripFactoryMark name
  let ctx ← context
  match ctx.resolve? factory with
  | none => reportAt b line (.factoryReferenceNotFound factory name)
  | some target =>
    match beanClass ctx target with
    | none => pure ()
    | some className =>
      if hasPlaceholder className then
        return
      match ← findType v className with
      | none => reportAt b line (.factoryReferenceClassNotFound factory name)
      | some type =>
        if !(← isFactoryType v type) then
          reportAt b line (.factoryReferenceNoFactory factory name)

/-- Checks a name that a value mentions. -/
def checkReference (v : Validator) (b : Bean) (line : Nat) (name : String) : Check Unit := do
  if v.ignores name then
    return
  match (← context).resolve? name with
  | some target =>
    if ← isInvalidTarget target then
      reportAt b line (.referenceInvalid name)
  | none =>
    if isFactoryReference name then
      checkFactoryReference v b line name
    else
      reportAt b line (.referenceNotFound name)

/-- Checks the names that a value mentions, in order. -/
def checkReferences (v : Validator) (b : Bean) (line : Nat) :
    List NamedReference → Check Unit
  | [] => pure ()
  | r :: rest => do
    checkReference v b line r.beanName
    checkReferences v b line rest

/-- Checks a name that a bean depends on. -/
def checkDependency (v : Validator) (b : Bean) (name : String) : Check Unit := do
  if v.ignores name then
    return
  match (← context).resolve? name with
  | some target =>
    if ← isInvalidTarget target then
      report b (.dependsOnInvalid name)
  | none => report b (.dependsOnNotFound name)

/-- Checks the names that a bean depends on, in order. -/
def checkDependencies (v : Validator) (b : Bean) : List String → Check Unit
  | [] => pure ()
  | name :: rest => do
    checkDependency v b name
    checkDependencies v b rest

/-- Checks the factory bean that makes a bean by a method.  The arguments of a bean that is
neither abstract nor a child are those of the method. -/
def checkFactory (v : Validator) (b : Bean) (factory method : String) : Check Unit := do
  if factory = b.name then
    report b (.ownFactory factory)
  else if v.ignores factory then
    return
  else
    match (← context).resolve? factory with
    | none => report b (.factoryNotFound factory)
    | some target =>
      let d ← mergedDefinition target
      match d.className, d.isAbstract with
      | some className, false =>
        let arity :=
          if !b.isAbstract && !b.isChild then Arity.exactly b.definition.arguments.size else .any
        checkFactoryMethod v b className method false arity
      | _, _ => report b (.factoryInvalid factory)

/-! ## Whole beans -/

/-- Checks the names in constructor arguments. -/
def checkArguments (v : Validator) (b : Bean) :
    List (Option Nat × Argument (Value Bean)) → Check Unit
  | [] => pure ()
  | (_, a) :: rest => do
    checkReferences v b a.location.startLine (a.value.namedReferences false)
    checkArguments v b rest

/-- Checks the names in properties; literals of interceptor lists are names too. -/
def checkPropertyValues (v : Validator) (b : Bean) :
    List (Property (Value Bean)) → Check Unit
  | [] => pure ()
  | p :: rest => do
    let interceptors := isInterceptorList v.settings.rules (← context) b p.name
    checkReferences v b p.location.startLine (p.value.namedReferences interceptors)
    checkPropertyValues v b rest

/-- Checks all names that a bean mentions. -/
def checkBeanReferences (v : Validator) (set : Option String) (b : Bean) : Check Unit := do
  checkParent v set b
  checkArguments v b b.arguments
  checkPropertyValues v b b.properties
  checkDependencies v b b.definition.dependsOn
  let d ← mergedDefinition b
  match d.factoryBean, d.factoryMethod with
  | some factory, none => report b (.factoryWithoutMethod factory)
  | some factory, some method => checkFactory v b factory method
  | none, _ => pure ()

/-- Checks that the target of an alias exists. -/
def checkAliasTarget (v : Validator) (a : BeanAlias) : Check Unit := do
  if !v.ignores a.beanName && ((← context).resolve? a.beanName).isNone then
    reportAlias a .targetNotFound

/-! ## The pass -/

/-- A task that looks at a bean, and checks its names unless it is skipped. -/
def referenceTask (v : Validator) (set : Option String) (skipped : Bool) (b : Bean) :
    Check Unit :=
  if skipped then pure () else v.checkBeanReferences set b

/-- The tasks for a bean that stands on its own, and for all beans in it unless it is skipped
or could not be registered. -/
def beanReferenceTasks (v : Validator) (set : Option String) (unregistered : List BeanId)
    (b : Bean) : List (Check Unit) :=
  if b.id ∈ unregistered ∨ v.skips b = true then
    [v.referenceTask set true b]
  else
    v.referenceTask set false b ::
      b.innerDeep.map fun i => v.referenceTask set (v.skips i) i

/-- The tasks of the second pass over a config: its beans, then its aliases. -/
def referenceTasks (v : Validator) (set : Option String) (unregistered : List BeanId)
    (config : Context) : List (Check Unit) :=
  config.beans.flatMap (v.beanReferenceTasks set unregistered) ++
    config.aliases.map v.checkAliasTarget

end BeanWiring.Validator
