/-
# Checking declarations

The first pass of a validation: each bean is registered and its own definition is
checked against the known types, without looking at other beans.  Inner beans are
checked like others but have no names to register.

A bean internal to a framework is registered and otherwise left alone, together with
everything nested in it: `checkedBeans` lists the beans that the pass visits.
-/
import BeanWiring.Placeholder
import BeanWiring.PropertyPath
import BeanWiring.Validation.Run

namespace BeanWiring.Validator

open Check

/-! ## Names -/

/-- Registers the aliases that a bean declares for itself. -/
def registerAliases (b : Bean) : List BeanAlias → Check Unit
  | [] => pure ()
  | a :: rest => do
    match (← get).registry.registerAlias a with
    | .ok registry => modify fun run => { run with registry }
    | .error error => report b (.aliasRefused a.name error)
    registerAliases b rest

/-- Registers a bean and its aliases. -/
def registerBean (set : Option String) (b : Bean) : Check Unit := do
  match (← get).registry.registerBean b with
  | .ok registry => modify fun run => { run with registry }
  | .error error =>
    report b (.nameTaken set error)
    modify fun run => { run with unregistered := b.id :: run.unregistered }
  registerAliases b (Registry.ownAliases b)

/-- Registers an alias declared on its own. -/
def registerDeclaredAlias (a : BeanAlias) : Check Unit := do
  match (← get).registry.registerAlias a with
  | .ok registry => modify fun run => { run with registry }
  | .error error => reportAlias a (.refused error)

/-! ## Types -/

/-- Checks that a factory method exists, unless its class or name holds a placeholder. -/
def checkFactoryMethod (v : Validator) (b : Bean) (className method : String) (isStatic : Bool)
    (arity : Arity) : Check Unit := do
  if hasPlaceholder className || hasPlaceholder method then
    return
  match ← findType v className with
  | none => report b (.factoryClassNotFound className)
  | some type =>
    let staticness := if isStatic then Staticness.onType else .onInstance
    if !(← hasMethod v type ⟨method, arity, staticness, true⟩) then
      report b (.noFactoryMethod isStatic method className)

/-- Checks that the arguments of a bean fit a constructor, where a constructor makes it. -/
def checkConstructor (v : Validator) (b : Bean) (type : String) : Check Unit := do
  let d := b.definition
  let count := d.arguments.size
  if count = 0 || d.factoryBean.isSome || d.factoryMethod.isSome ||
      d.effectiveAutowire.isEnabled then
    return
  if !(← hasConstructor v type count) then
    let line := match b.firstArgument? with
      | some (_, a) => a.location.startLine
      | none => b.startLine
    reportAt b line (.noConstructor count type)

/-- Checks that a method called at the start or the end of a bean's life exists. -/
def checkLifecycleMethod (v : Validator) (b : Bean) (type : String)
    (finding : String → String → Finding) : Option String → Check Unit
  | none => pure ()
  | some method => do
    if hasPlaceholder method then
      return
    if !(← hasMethod v type ⟨method, .exactly 0, .onInstance, true⟩) then
      report b (finding method type)

/-- Checks that a property exists: the start of a nested one can be read, and any other can
be set. -/
def checkProperty (v : Validator) (b : Bean) (type : String) (p : Property (Value Bean)) :
    Check Unit := do
  if hasPlaceholder p.name then
    return
  let line := p.location.startLine
  match PropertyPath.head? p.name with
  | some segment =>
    if !(← hasGetter v type (PropertyPath.Tokens.ofName segment).actualName) then
      reportAt b line (.noGetter segment type p.name)
  | none =>
    let name := (PropertyPath.Tokens.ofName p.name).actualName
    if !(← hasWritableProperty v type name) then
      reportAt b line (.noSetter name type p.name)

/-- Checks properties in order. -/
def checkProperties (v : Validator) (b : Bean) (type : String) :
    List (Property (Value Bean)) → Check Unit
  | [] => pure ()
  | p :: rest => do
    checkProperty v b type p
    checkProperties v b type rest

/-- Checks a bean against the class that it declares. -/
def checkClass (v : Validator) (b : Bean) (className : String) : Check Unit := do
  if hasPlaceholder className then
    return
  match ← findType v className with
  | none =>
    if !b.isAbstract then
      report b (.classNotFound className)
  | some type =>
    if !b.isAbstract then
      checkConstructor v b type
    if !(← isFactoryType v type) then
      checkLifecycleMethod v b type .noInitMethod b.definition.initMethod
      checkLifecycleMethod v b type .noDestroyMethod b.definition.destroyMethod
    checkProperties v b type b.properties

/-- Checks a bean without parent, whose definition has to stand on its own. -/
def checkRoot (v : Validator) (b : Bean) : Check Unit := do
  match b.definition.fault? with
  | some fault => report b (.invalidDefinition fault)
  | none => pure ()
  match b.className with
  | some className => checkClass v b className
  | none => pure ()

/-- Registers a bean, unless it is an inner one, and checks its definition. -/
def checkDeclaration (v : Validator) (set : Option String) (b : Bean) : Check Unit := do
  if !b.isInner then
    registerBean set b
  if v.skips b then
    return
  match b.className, b.definition.factoryMethod, b.definition.factoryBean with
  | some className, some method, none => checkFactoryMethod v b className method true .any
  | _, _, _ => pure ()
  if !b.isChild then
    checkRoot v b

/-! ## The pass -/

mutual

/-- A bean and the beans in it that the pass visits: nothing below a skipped bean. -/
def checkedIn (v : Validator) : Nest → List Bean
  | .node b inner => b :: if v.skips b then [] else checkedInAll v inner

/-- The beans visited in a list of nests. -/
def checkedInAll (v : Validator) : List Nest → List Bean
  | [] => []
  | n :: ns => checkedIn v n ++ checkedInAll v ns

end

/-- The beans that the pass visits, in order. -/
def checkedBeans (v : Validator) (beans : List Bean) : List Bean :=
  checkedInAll v (beans.map Bean.nest)

/-- The tasks of the first pass over a config: its beans, then its aliases. -/
def declarationTasks (v : Validator) (set : Option String) (config : Context) :
    List (Check Unit) :=
  (v.checkedBeans config.beans).map (v.checkDeclaration set) ++
    config.aliases.map registerDeclaredAlias

/-- Registers the components of a config, which cannot clash. -/
def registerComponents (config : Context) (run : Run) : Run :=
  { run with registry := config.components.foldl Registry.registerComponent run.registry }

end BeanWiring.Validator
