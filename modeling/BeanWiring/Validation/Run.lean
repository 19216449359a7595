/-
# Validation runs

The state of a validation and the tasks that it consists of.  A run keeps the reports
made so far, the registry of the current pass, the questions asked of the type index,
and how far it got.

A run is a list of *tasks*.  Before each of them it asks whether it has been cancelled;
`perform` stops at the first task before which it has.

Main statement: `perform_of_not_interrupted`, that a run that is never cancelled does
all its tasks.
-/
import BeanWiring.Config.Tree
import BeanWiring.Reference.Walk
import BeanWiring.Types.Index
import BeanWiring.Validation.Finding

namespace BeanWiring

/-! ## Settings -/

/-- What a validation takes for granted. -/
structure ValidationSettings where
  /-- Bean names that are never reported as missing. -/
  ignorable : List String := []
  /-- Which list properties hold bean names. -/
  rules : List InterceptorRule := [.proxy]
  /-- The interface of beans that make another object. -/
  factoryInterface : String := "org.springframework.beans.factory.FactoryBean"
  /-- Whether beans internal to a framework are left unchecked. -/
  skipInfrastructure : Bool := true

/-- A validator: settings, the known types, and the name of the project whose types count. -/
structure Validator where
  settings : ValidationSettings := {}
  types : TypeIndex := {}
  scope : String := ""

namespace Validator

/-- Whether a bean is left unchecked. -/
def skips (v : Validator) (b : Bean) : Bool :=
  v.settings.skipInfrastructure && b.isInfrastructure

/-- Whether a name is not looked up: it is ignorable or holds a placeholder. -/
def ignores (v : Validator) (name : String) : Bool :=
  hasPlaceholder name || v.settings.ignorable.contains name

end Validator

/-! ## State -/

/-- A question asked of the type index. -/
inductive TypeQuestion where
  | findType (name scope : String)
  | hasConstructor (type : String) (count : Nat) (allowSubtypes : Bool)
  | findMethod (type : String) (query : MethodQuery)
  | hasWritableProperty (type name : String)
  | implementsInterface (type name : String)
deriving DecidableEq

/-- Whether a question looks a type up by name. -/
def TypeQuestion.isLookup : TypeQuestion → Bool
  | findType _ _ => true
  | _ => false

/-- The state of a validation run. -/
structure Run where
  diagnostics : Array Diagnostic := #[]
  /-- The registry of the current pass. -/
  registry : Registry := .forConfig ""
  /-- Beans whose registration failed in the current pass. -/
  unregistered : List BeanId := []
  /-- Definitions merged in the current pass. -/
  cache : MergeCache := {}
  /-- Whether they are remembered; otherwise each is merged anew when it is needed. -/
  remembers : Bool := true
  questions : Array TypeQuestion := #[]
  /-- How many of the questions looked a type up by name. -/
  typeLookups : Nat := 0
  /-- How often the run has asked whether it is cancelled. -/
  polls : Nat := 0
  /-- How many configs and config sets the run has read. -/
  reads : Nat := 0

/-- A step of a run. -/
abbrev Check := StateM Run

namespace Check

/-- Reports a finding about a bean at a line. -/
def reportAt (b : Bean) (line : Nat) (finding : Finding) : Check Unit :=
  modify fun run =>
    { run with diagnostics := run.diagnostics.push (Report.bean b line finding).toDiagnostic }

/-- Reports a finding about a bean at its first line. -/
def report (b : Bean) (finding : Finding) : Check Unit :=
  reportAt b b.startLine finding

/-- Reports a finding about an alias. -/
def reportAlias (a : BeanAlias) (finding : AliasFinding) : Check Unit :=
  modify fun run =>
    { run with diagnostics := run.diagnostics.push (Report.aliasing a finding).toDiagnostic }

/-- Notes a question to the type index. -/
def ask (question : TypeQuestion) : Check Unit :=
  modify fun run =>
    { run with
      questions := run.questions.push question
      typeLookups := run.typeLookups + question.isLookup.toNat }

/-- Looks a type up by name. -/
def findType (v : Validator) (name : String) : Check (Option String) := do
  ask (.findType name v.scope)
  return v.types.findType? name

/-- Whether a type has a method that a query accepts. -/
def hasMethod (v : Validator) (type : String) (query : MethodQuery) : Check Bool := do
  ask (.findMethod type query)
  return (v.types.findMethod? type query).isSome

/-- Whether a type has a constructor for a number of arguments. -/
def hasConstructor (v : Validator) (type : String) (count : Nat) : Check Bool := do
  ask (.hasConstructor type count true)
  return v.types.hasConstructor type count

/-- Whether a property of a type can be set. -/
def hasWritableProperty (v : Validator) (type name : String) : Check Bool := do
  ask (.hasWritableProperty type name)
  return v.types.hasWritableProperty type name

/-- Whether a type makes other objects. -/
def isFactoryType (v : Validator) (type : String) : Check Bool := do
  ask (.implementsInterface type v.settings.factoryInterface)
  return v.types.implements type v.settings.factoryInterface

/-- Whether a property of a type can be read, by either kind of getter. -/
def hasGetter (v : Validator) (type property : String) : Check Bool := do
  if ← hasMethod v type ⟨getterName property, .exactly 0, .onInstance, true⟩ then
    return true
  else
    hasMethod v type ⟨queryName property, .exactly 0, .onInstance, true⟩

/-- The registry of the current pass as a context. -/
def context : Check Context := do
  return (← get).registry.toContext

/-- The merged definition of a bean in the registry, made once for each identity as far as it
is remembered. -/
def mergedDefinition (b : Bean) : Check (Definition (Value Declaration)) :=
  modifyGet fun run =>
    let (definition, cache) := run.cache.merged run.registry.toContext b
    (definition, { run with cache := if run.remembers then cache else run.cache })

end Check

/-! ## Tasks -/

/-- When a run counts as cancelled, by the questions of this kind asked before and by the
types looked up so far. -/
abbrev Interrupt := (polls : Nat) → (typeLookups : Nat) → Bool

/-- Does tasks one after the other, asking before each whether the run is cancelled.  The
error is the run as it was when it found itself cancelled. -/
def perform (interrupt : Interrupt) (run : Run) : List (Check Unit) → Except Run Run
  | [] => .ok run
  | task :: tasks =>
    if interrupt run.polls run.typeLookups then
      .error run
    else
      perform interrupt (task.run { run with polls := run.polls + 1 }).2 tasks

/-- A run that is never cancelled does all its tasks. -/
theorem perform_of_not_interrupted (run : Run) (tasks : List (Check Unit)) :
    perform (fun _ _ => false) run tasks
      = .ok (tasks.foldl (fun run task => (task.run { run with polls := run.polls + 1 }).2)
          run) := by
  induction tasks generalizing run with
  | nil => rfl
  | cons task tasks ih => simp [perform, ih]

end BeanWiring
