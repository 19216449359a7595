/-
# Properties of checks

The checks of a validation are put together from a few kinds of steps: questions to the known
types, reports, look-ups in the registry, and merged definitions.  A property that these steps
have, and that steps done one after the other keep, holds of every check that is made of them.

The steps of the first pass are *closed* under such a property as soon as it holds of questions
and of the reports that the pass makes.  The second pass also looks names up, and asks for the
merged definitions of what it finds.  What the passes can report of a bean is said once, finding
by finding: `Declares` for the first pass, and `Refers` and `Dangles` for the second.  A name that
is ignorable or holds a placeholder is left alone before anything is asked about it, so no finding
says that it is missing or unfit.

Main statements:

* `Closed.checkMade` : what the first pass does with a bean once it is registered;
* `ClosedNames.declarationTasks` : the tasks of the first pass;
* `ClosedLookups.checkBeanReferences` : what the second pass does with a bean;
* `ClosedLookups.referenceTasks` : the tasks of the second pass.
-/
import BeanWiring.Validation.References

namespace BeanWiring

/-! ## Reports -/

/-- The name that a finding says is missing or unfit.  A finding about names that clash, or
about a definition as such, seeks none. -/
def Finding.sought? : Finding → Option String
  | nameTaken _ _ => none
  | aliasRefused _ _ => none
  | invalidDefinition _ => none
  | noConstructor _ _ => none
  | ownParent _ => none
  | factoryWithoutMethod _ => none
  | ownFactory _ => none
  | finding => finding.subject?

/-- Whether a finding is about what makes a bean: its class, its factory bean or the factory
method. -/
def Finding.isOfMaking : Finding → Bool
  | classNotFound _ => true
  | factoryWithoutMethod _ => true
  | ownFactory _ => true
  | factoryNotFound _ => true
  | factoryInvalid _ => true
  | factoryClassNotFound _ => true
  | noFactoryMethod _ _ _ => true
  | _ => false

/-- No finding about a bean has the code for aliases that lead nowhere. -/
theorem Finding.code_ne_aliasTarget (f : Finding) : f.code ≠ "UNDEFINED_ALIAS_TARGET" := by
  cases f <;> simp [Finding.code]

/-- A name, if there is one, holds no placeholder. -/
def IsPlain : Option String → Prop
  | none => True
  | some name => hasPlaceholder name = false

namespace Validator

/-- A name that is looked up holds no placeholder. -/
theorem isPlain_of_not_ignores {v : Validator} {name : String} (counts : v.ignores name = false) :
    IsPlain (some name) := by
  rw [ignores, Bool.or_eq_false_iff] at counts
  exact counts.1

/-! ## What can be found -/

/-- What can be wrong with the definition of a bean next to the known types.  Names that were
sought among the types hold no placeholders. -/
inductive Mismatches : Finding → Prop
  | classNotFound {name : String} (plain : hasPlaceholder name = false) :
      Mismatches (.classNotFound name)
  | noConstructor (count : Nat) (type : String) : Mismatches (.noConstructor count type)
  | noInitMethod {method type : String} (plain : hasPlaceholder method = false) :
      Mismatches (.noInitMethod method type)
  | noDestroyMethod {method type : String} (plain : hasPlaceholder method = false) :
      Mismatches (.noDestroyMethod method type)
  | noGetter {segment type property : String} (plain : hasPlaceholder property = false) :
      Mismatches (.noGetter segment type property)
  | noSetter {name type property : String} (plain : hasPlaceholder property = false) :
      Mismatches (.noSetter name type property)
  | factoryClassNotFound {name : String} (plain : hasPlaceholder name = false) :
      Mismatches (.factoryClassNotFound name)
  | noFactoryMethod {isStatic : Bool} {method type : String}
      (plain : hasPlaceholder method = false) : Mismatches (.noFactoryMethod isStatic method type)

/-- What can be wrong with the definition of a bean. -/
inductive Defines : Finding → Prop
  | invalid (fault : DefinitionFault) : Defines (.invalidDefinition fault)
  | mismatch {f : Finding} (found : Mismatches f) : Defines f

/-- What the first pass can report of a bean: that its names are taken, if it is registered, and
what is wrong with its definition, unless it is skipped. -/
inductive Declares (v : Validator) (b : Bean) : Finding → Prop
  | nameTaken (registered : b.isInner = false) (set : Option String) (error : RegistryError) :
      Declares v b (.nameTaken set error)
  | aliasRefused (registered : b.isInner = false) (name : String) (error : RegistryError) :
      Declares v b (.aliasRefused name error)
  | definition {f : Finding} (kept : v.skips b = false) (found : Defines f) : Declares v b f

/-- What is reported of a reference that leads to something that does not fit. -/
inductive Unfits (v : Validator) : Finding → Prop
  | invalid {name : String} (counts : v.ignores name = false) : Unfits v (.referenceInvalid name)
  | classNotFound {factory name : String} (counts : v.ignores name = false) :
      Unfits v (.factoryReferenceClassNotFound factory name)
  | noFactory {factory name : String} (counts : v.ignores name = false) :
      Unfits v (.factoryReferenceNoFactory factory name)

/-- What is reported of a reference that leads nowhere: the name is missing, or what is left of it
without the factory mark. -/
inductive Dangles (v : Validator) : Finding → Prop
  | unmarked {name : String} (counts : v.ignores name = false) : Dangles v (.referenceNotFound name)
  | marked {name : String} (counts : v.ignores name = false) :
      Dangles v (.factoryReferenceNotFound (stripFactoryMark name) name)

/-- What the second pass can report of a bean, other than that a reference leads nowhere.  Names
that were looked up count. -/
inductive Refers (v : Validator) (b : Bean) : Finding → Prop
  | ownParent (name : String) : Refers v b (.ownParent name)
  | parentNotFound {name : String} (set : Option String) (counts : v.ignores name = false) :
      Refers v b (.parentNotFound name set)
  | dependsOnInvalid {name : String} (counts : v.ignores name = false) :
      Refers v b (.dependsOnInvalid name)
  | dependsOnNotFound {name : String} (counts : v.ignores name = false) :
      Refers v b (.dependsOnNotFound name)
  | unfit {f : Finding} (found : Unfits v f) : Refers v b f
  | factoryWithoutMethod (factory : String) : Refers v b (.factoryWithoutMethod factory)
  | ownFactory (name : String) : Refers v b (.ownFactory name)
  | factoryNotFound {name : String} (other : name ≠ b.name) (counts : v.ignores name = false) :
      Refers v b (.factoryNotFound name)
  | factoryInvalid {name : String} (counts : v.ignores name = false) :
      Refers v b (.factoryInvalid name)
  | factoryClassNotFound {name : String} (plain : hasPlaceholder name = false) :
      Refers v b (.factoryClassNotFound name)
  | noFactoryMethod {isStatic : Bool} {method type : String}
      (plain : hasPlaceholder method = false) : Refers v b (.noFactoryMethod isStatic method type)

section Findings

variable {v : Validator} {b : Bean} {f : Finding}

/-- What does not fit a class or a method was not sought under a name with a placeholder. -/
theorem Mismatches.plain (h : Mismatches f) : IsPlain f.sought? := by
  cases h with
  | noConstructor => trivial
  | _ => assumption

/-- Nor was what is found while the definition of a bean is checked. -/
theorem Defines.plain (h : Defines f) : IsPlain f.sought? := by
  cases h with
  | invalid => trivial
  | mismatch found => exact found.plain

/-- Nor was what is found while a bean is declared. -/
theorem Declares.plain (h : v.Declares b f) : IsPlain f.sought? := by
  cases h with
  | nameTaken | aliasRefused => trivial
  | definition _ found => exact found.plain

/-- Nor is a target that does not fit. -/
theorem Unfits.plain (h : v.Unfits f) : IsPlain f.sought? := by
  cases h with
  | _ counts => exact isPlain_of_not_ignores counts

/-- A reference is not what makes a bean. -/
theorem Unfits.isOfMaking (h : v.Unfits f) : f.isOfMaking = false := by
  cases h <;> rfl

/-- Nor is a target that is missing. -/
theorem Dangles.plain (h : v.Dangles f) : IsPlain f.sought? := by
  cases h with
  | _ counts => exact isPlain_of_not_ignores counts

/-- So no name with a placeholder is the subject of anything found about references. -/
theorem Refers.plain (h : v.Refers b f) : IsPlain f.sought? := by
  cases h with
  | ownParent | factoryWithoutMethod | ownFactory => trivial
  | factoryClassNotFound plain | noFactoryMethod plain => exact plain
  | parentNotFound _ counts | factoryNotFound _ counts => exact isPlain_of_not_ignores counts
  | unfit found => exact found.plain
  | _ counts => exact isPlain_of_not_ignores counts

/-! ### Codes -/

/-- The codes of the reports on the definitions of beans. -/
def definitionCodes : List String :=
  ["INVALID_BEAN_DEFINITION", "CLASS_NOT_FOUND", "NO_CONSTRUCTOR", "UNDEFINED_INIT_METHOD",
    "UNDEFINED_DESTROY_METHOD", "NO_GETTER", "NO_SETTER", "UNDEFINED_FACTORY_BEAN_METHOD"]

/-- The codes of all reports that the first pass makes. -/
def declarationCodes : List String :=
  ["BEAN_OVERRIDE", "INVALID_BEAN_ALIAS", "INVALID_BEAN_DEFINITION", "CLASS_NOT_FOUND",
    "NO_CONSTRUCTOR", "UNDEFINED_INIT_METHOD", "UNDEFINED_DESTROY_METHOD", "NO_GETTER",
    "NO_SETTER", "UNDEFINED_FACTORY_BEAN_METHOD"]

/-- What makes a bean is part of what is declared of it. -/
theorem definitionCodes_subset : definitionCodes ⊆ declarationCodes := by decide

/-- The codes of all reports that the second pass makes, but for the one of references that
lead nowhere. -/
def lookupCodes : List String :=
  ["UNDEFINED_PARENT_BEAN", "INVALID_DEPENDS_ON_BEAN", "UNDEFINED_DEPENDS_ON_BEAN",
    "CLASS_NOT_FOUND", "UNDEFINED_FACTORY_BEAN_METHOD", "INVALID_REFERENCED_BEAN",
    "UNDEFINED_FACTORY_BEAN", "INVALID_FACTORY_BEAN", "UNDEFINED_ALIAS_TARGET"]

/-- Findings of each kind have the codes of the checks that make them. -/
theorem Mismatches.code_mem (h : Mismatches f) : f.code ∈ definitionCodes := by
  cases h <;> simp [Finding.code, definitionCodes]

/-- The code for invalid definitions is used for nothing else. -/
theorem Mismatches.code_ne (h : Mismatches f) : f.code ≠ "INVALID_BEAN_DEFINITION" := by
  cases h <;> simp [Finding.code]

/-- The same of the findings about what makes a bean. -/
theorem Defines.code_mem (h : Defines f) : f.code ∈ definitionCodes := by
  cases h with
  | invalid => simp [Finding.code, definitionCodes]
  | mismatch found => exact found.code_mem

/-- The same of the findings about declarations. -/
theorem Declares.code_mem (h : v.Declares b f) : f.code ∈ declarationCodes := by
  cases h with
  | nameTaken | aliasRefused => simp [Finding.code, declarationCodes]
  | definition _ found => exact definitionCodes_subset found.code_mem

/-- A target that does not fit has one of two codes. -/
theorem Unfits.code_mem (h : v.Unfits f) :
    f.code ∈ ["INVALID_REFERENCED_BEAN", "INVALID_FACTORY_BEAN"] := by
  cases h <;> simp [Finding.code]

/-- So has a target that is missing. -/
theorem Dangles.code_eq (h : v.Dangles f) :
    f.code = "UNDEFINED_REFERENCED_BEAN" ∨ f.code = "UNDEFINED_FACTORY_BEAN" := by
  cases h <;> simp [Finding.code]

/-- And all that is found about references has the code of a look-up. -/
theorem Refers.code_mem (h : v.Refers b f) : f.code ∈ lookupCodes := by
  cases h with
  | unfit found =>
    have among : ["INVALID_REFERENCED_BEAN", "INVALID_FACTORY_BEAN"] ⊆ lookupCodes := by decide
    exact among found.code_mem
  | _ => simp [Finding.code, lookupCodes]

end Findings

/-! ## What is checked -/

/-- The beans whose names the second pass checks, when the beans of `refused` could not be
registered. -/
inductive Checks (v : Validator) (config : Context) (refused : List BeanId) : Bean → Prop
  | own {b : Bean} (declared : b ∈ config.beans) (accepted : b.id ∉ refused)
      (kept : v.skips b = false) : Checks v config refused b
  | inner {b x : Bean} (declared : b ∈ config.beans) (accepted : b.id ∉ refused)
      (kept : v.skips b = false) (within : x ∈ b.innerDeep) (keptItself : v.skips x = false) :
      Checks v config refused x

/-! ## Proposals to the registry -/

open Check

/-- A step that asks the registry to accept something, deals with a refusal by `refuse`, and
goes on with `rest`. -/
def propose (answer : Registry → Except RegistryError Registry)
    (refuse : RegistryError → Check Unit) (rest : Check Unit) : Check Unit := do
  match answer (← get).registry with
  | .ok registry => modify fun run => { run with registry }
  | .error error => refuse error
  rest

/-- An alias that is declared on its own is proposed to the registry, and reported if refused. -/
theorem registerDeclaredAlias_eq_propose (a : BeanAlias) :
    registerDeclaredAlias a
      = propose (·.registerAlias a) (fun error => reportAlias a (.refused error)) (pure ()) := by
  refine congrArg (get >>= ·) (funext fun run => ?_)
  cases reply : run.registry.registerAlias a <;> simp only [reply, bind_pure_unit]

section Propose

variable {answer : Registry → Except RegistryError Registry}
  {refuse : RegistryError → Check Unit} {rest : Check Unit} {run : Run}

/-- If the registry accepts, the rest goes on with the registry that it answers. -/
theorem run_propose_of_ok {registry : Registry} (reply : answer run.registry = .ok registry) :
    (propose answer refuse rest).run run = rest.run { run with registry } := by
  simp [propose, reply]

/-- If the registry refuses, the error is dealt with before the rest. -/
theorem run_propose_of_error {error : RegistryError} (reply : answer run.registry = .error error) :
    (propose answer refuse rest).run run = (refuse error >>= fun _ => rest).run run := by
  simp [propose, reply]

end Propose

end Validator

namespace Check

open Validator

/-! ## First pass -/

/-- A property that questions to the types have, and the reports on beans that are allowed, and
that steps one after the other keep. -/
structure Closed (allowed : Report → Prop) (P : {α : Type} → Check α → Prop) : Prop where
  pure {α : Type} (a : α) : P (Pure.pure a : Check α)
  bind {α β : Type} {c : Check α} {g : α → Check β} : P c → (∀ a, P (g a)) → P (c >>= g)
  ask (question : TypeQuestion) : P (Check.ask question)
  reportAt (b : Bean) (line : Nat) {finding : Finding} :
    allowed (.bean b line finding) → P (Check.reportAt b line finding)

namespace Closed

variable {allowed : Report → Prop} {P : {α : Type} → Check α → Prop} {α : Type}

/-- A choice between two steps, the second of which may rely on how the choice was made. -/
theorem guard (_closed : Closed allowed @P) {p : Prop} [Decidable p] {c c' : Check α} (yes : P c)
    (no : ¬p → P c') : P (if p then c else c') := by
  by_cases h : p
  · rw [if_pos h]
    exact yes
  · rw [if_neg h]
    exact no h

/-- A choice between two steps, for which no law is needed. -/
theorem ite (closed : Closed allowed @P) {p : Prop} [Decidable p] {c c' : Check α} (yes : P c)
    (no : P c') : P (if p then c else c') :=
  closed.guard yes fun _ => no

variable (closed : Closed allowed @P)
include closed

/-- Steps for the entries of a list, one after the other. -/
theorem list (step : α → Check Unit) (all : List α → Check Unit)
    (nil : all [] = Pure.pure ()) (cons : ∀ x xs, all (x :: xs) = step x >>= fun _ => all xs)
    (h : ∀ x, P (step x)) (xs : List α) : P (all xs) := by
  induction xs with
  | nil =>
    rw [nil]
    exact closed.pure ()
  | cons x xs ih =>
    rw [cons]
    exact closed.bind (h x) fun _ => ih

/-! ### Single steps -/

theorem report (b : Bean) {finding : Finding} (known : allowed (.bean b b.startLine finding)) :
    P (Check.report b finding) :=
  closed.reportAt b b.startLine known

variable (v : Validator)

/-- Looking for a class has the property: it asks, and reports nothing. -/
theorem findType (name : String) : P (Check.findType v name) :=
  closed.bind (closed.ask _) fun _ => closed.pure _

/-- So has looking for a method. -/
theorem hasMethod (type : String) (query : MethodQuery) : P (Check.hasMethod v type query) :=
  closed.bind (closed.ask _) fun _ => closed.pure _

/-- So has looking for a constructor. -/
theorem hasConstructor (type : String) (count : Nat) : P (Check.hasConstructor v type count) :=
  closed.bind (closed.ask _) fun _ => closed.pure _

/-- So has asking whether a property can be set. -/
theorem hasWritableProperty (type name : String) :
    P (Check.hasWritableProperty v type name) :=
  closed.bind (closed.ask _) fun _ => closed.pure _

/-- So has asking whether a class makes beans. -/
theorem isFactoryType (type : String) : P (Check.isFactoryType v type) :=
  closed.bind (closed.ask _) fun _ => closed.pure _

/-- A getter is looked for under two names. -/
theorem hasGetter (type property : String) : P (Check.hasGetter v type property) := by
  refine closed.bind (closed.hasMethod v type _) fun found => ?_
  cases found with
  | true => exact closed.pure true
  | false => exact closed.hasMethod v type _

/-! ### Checks of a declaration -/

/-- The check of a factory method reports only that its class or the method is missing, and neither
if one of the names has a placeholder. -/
theorem checkFactoryMethod (b : Bean) (className method : String) (isStatic : Bool)
    (arity : Arity)
    (noClass : hasPlaceholder className = false →
      allowed (.bean b b.startLine (.factoryClassNotFound className)))
    (noMethod : ∀ type, hasPlaceholder method = false →
      allowed (.bean b b.startLine (.noFactoryMethod isStatic method type))) :
    P (v.checkFactoryMethod b className method isStatic arity) := by
  refine closed.guard (closed.pure ()) fun plain => ?_
  rw [Bool.or_eq_true, not_or, Bool.not_eq_true, Bool.not_eq_true] at plain
  refine closed.bind (closed.findType v className) fun type => ?_
  cases type with
  | none => exact closed.report b (noClass plain.1)
  | some type =>
    refine closed.bind (closed.hasMethod v type _) fun found => ?_
    exact closed.ite (closed.report b (noMethod _ plain.2)) (closed.pure ())

section Mismatches

variable (b : Bean)

section Members

variable (others : ∀ line f, Mismatches f → f.isOfMaking = false → allowed (.bean b line f))
include others

/-- Of the constructor arguments only their number is reported. -/
theorem checkConstructor (type : String) : P (v.checkConstructor b type) := by
  refine closed.ite (closed.pure ())
    (closed.bind (closed.hasConstructor v type _) fun found => ?_)
  exact closed.ite (closed.reportAt b _ (others _ _ (.noConstructor _ _) rfl)) (closed.pure ())

theorem checkLifecycleMethod (type : String) (finding : String → String → Finding)
    (defines : ∀ m t, hasPlaceholder m = false →
      Mismatches (finding m t) ∧ (finding m t).isOfMaking = false)
    (method : Option String) :
    P (v.checkLifecycleMethod b type finding method) := by
  cases method with
  | none => exact closed.pure ()
  | some method =>
    refine closed.guard (closed.pure ()) fun plain => ?_
    rw [Bool.not_eq_true] at plain
    obtain ⟨mismatches, other⟩ := defines method type plain
    refine closed.bind (closed.hasMethod v type _) fun found => ?_
    exact closed.ite (closed.report b (others _ _ mismatches other)) (closed.pure ())

/-- A property without a getter or a setter is reported, unless its name has a placeholder. -/
theorem checkProperty (type : String) (p : Property (Value Bean)) :
    P (v.checkProperty b type p) := by
  refine closed.guard (closed.pure ()) fun plain => ?_
  rw [Bool.not_eq_true] at plain
  cases PropertyPath.head? p.name with
  | some segment =>
    refine closed.bind (closed.hasGetter v type _) fun found => ?_
    exact closed.ite (closed.reportAt b _ (others _ _ (.noGetter plain) rfl)) (closed.pure ())
  | none =>
    refine closed.bind (closed.hasWritableProperty v type _) fun found => ?_
    exact closed.ite (closed.reportAt b _ (others _ _ (.noSetter plain) rfl)) (closed.pure ())

/-- Properties are checked one after the other. -/
theorem checkProperties (type : String) (properties : List (Property (Value Bean))) :
    P (v.checkProperties b type properties) :=
  closed.list (v.checkProperty b type) (v.checkProperties b type) rfl (fun _ _ => rfl)
    (closed.checkProperty v b others type) properties

/-- What is checked of a bean whose class is found. -/
theorem checkMembers (type : String) : P (do
    if !b.isAbstract then
      v.checkConstructor b type
    if !(← Check.isFactoryType v type) then
      v.checkLifecycleMethod b type .noInitMethod b.definition.initMethod
      v.checkLifecycleMethod b type .noDestroyMethod b.definition.destroyMethod
    v.checkProperties b type b.properties) := by
  have properties := closed.checkProperties v b others type b.properties
  have init := closed.checkLifecycleMethod v b others type .noInitMethod
    (fun _ _ plain => ⟨.noInitMethod plain, rfl⟩) b.definition.initMethod
  have destroy := closed.checkLifecycleMethod v b others type .noDestroyMethod
    (fun _ _ plain => ⟨.noDestroyMethod plain, rfl⟩) b.definition.destroyMethod
  have lifecycle := closed.bind init fun _ => closed.bind destroy fun _ => properties
  -- Of a factory only the properties are checked: the methods are those of what it makes.
  have methods := closed.bind (closed.isFactoryType v type) fun isFactory =>
    show P (if !isFactory then _ else _) from closed.ite lifecycle properties
  have constructor := closed.checkConstructor v b others type
  exact closed.ite (closed.bind constructor fun _ => methods) methods

end Members

variable (known : ∀ line f, Mismatches f → allowed (.bean b line f))
include known

theorem checkClass (className : String) : P (v.checkClass b className) := by
  refine closed.guard (closed.pure ()) fun plain => ?_
  rw [Bool.not_eq_true] at plain
  refine closed.bind (closed.findType v className) fun type => ?_
  cases type with
  | none =>
    exact closed.ite (closed.report b (known _ _ (.classNotFound plain))) (closed.pure ())
  | some type => exact closed.checkMembers v b (fun line f found _ => known line f found) type

/-- The end of `checkRoot`. -/
theorem checkDeclaredClass : P (match b.className with
    | some className => v.checkClass b className
    | none => Pure.pure ()) := by
  cases b.className with
  | some className => exact closed.checkClass v b known className
  | none => exact closed.pure ()

end Mismatches

variable (b : Bean) (known : ∀ line f, Defines f → allowed (.bean b line f))
include known

/-- A definition at fault is reported, and its class is checked all the same. -/
theorem checkRoot : P (v.checkRoot b) := by
  have ofClass := closed.checkDeclaredClass v b fun line f found => known line f (.mismatch found)
  unfold Validator.checkRoot
  cases b.definition.fault? with
  | some fault =>
    exact closed.bind (closed.report b (known _ _ (.invalid fault))) fun _ => ofClass
  | none => exact ofClass

/-- The end of `checkDeclaration`. -/
theorem checkMade :
    P (match b.className, b.definition.factoryMethod, b.definition.factoryBean with
      | some className, some method, none =>
        v.checkFactoryMethod b className method true .any >>= fun _ =>
          if !b.isChild then v.checkRoot b else Pure.pure ()
      | _, _, _ => if !b.isChild then v.checkRoot b else Pure.pure ()) := by
  have root : P (if !b.isChild then v.checkRoot b else Pure.pure ()) :=
    closed.ite (closed.checkRoot v b known) (closed.pure ())
  split
  · exact closed.bind (closed.checkFactoryMethod v b _ _ true .any
      (fun plain => known _ _ (.mismatch (.factoryClassNotFound plain)))
      (fun _ plain => known _ _ (.mismatch (.noFactoryMethod plain)))) fun _ => root
  · exact root

end Closed

/-! ### Names -/

/-- A closed property that proposals to the registry have as well, with what is done about those
that it refuses. -/
structure ClosedNames (allowed : Report → Prop) (P : {α : Type} → Check α → Prop) : Prop
    extends Closed allowed @P where
  propose (answer : Registry → Except RegistryError Registry)
    {refuse : RegistryError → Check Unit} {rest : Check Unit} :
    (∀ error, P (refuse error)) → P rest → P (propose answer refuse rest)
  noteRefused (b : Bean) :
    P (modify fun run => { run with unregistered := b.id :: run.unregistered } : Check Unit)
  reportRefused (a : BeanAlias) (error : RegistryError) : allowed (.aliasing a (.refused error)) →
    P (Check.reportAlias a (.refused error))

namespace ClosedNames

variable {allowed : Report → Prop} {P : {α : Type} → Check α → Prop}
  (closed : ClosedNames allowed @P)
include closed

section Beans

variable (v : Validator) (b : Bean)

section Registered

variable (named : ∀ line f, v.Declares b f → f.isOfMaking = false → allowed (.bean b line f))
  (registered : b.isInner = false)
include named registered

/-- Of the names that a bean lists for itself those are reported that the registry refuses. -/
theorem registerAliases (own : List BeanAlias) : P (Validator.registerAliases b own) := by
  induction own with
  | nil => exact closed.pure ()
  | cons a rest ih =>
    have refused : ∀ error, P (Check.report b (.aliasRefused a.name error)) :=
      fun error => closed.report b (named _ _ (.aliasRefused registered a.name error) rfl)
    exact closed.propose (·.registerAlias a) refused ih

/-- A bean is reported if its name is taken, and then its own names are registered all the same. -/
theorem registerBean (set : Option String) : P (Validator.registerBean set b) := by
  have refused : ∀ error, P (Check.report b (.nameTaken set error) >>= fun _ =>
      modify fun run => { run with unregistered := b.id :: run.unregistered }) :=
    fun error => closed.bind (closed.report b (named _ _ (.nameTaken registered set error) rfl))
      fun _ => closed.noteRefused b
  exact closed.propose (·.registerBean b) refused
    (closed.registerAliases v b named registered (Registry.ownAliases b))

end Registered

/-- What the first pass does with a bean. -/
theorem checkDeclaration (known : ∀ line f, v.Declares b f → allowed (.bean b line f))
    (set : Option String) : P (v.checkDeclaration set b) := by
  have checks : P (if v.skips b then Pure.pure () else _) :=
    closed.guard (closed.pure ()) fun kept =>
      closed.checkMade v b fun line f found =>
        known line f (.definition (Bool.eq_false_iff.2 kept) found)
  unfold Validator.checkDeclaration
  cases inner : b.isInner with
  | true => exact checks
  | false =>
    exact closed.bind (closed.registerBean v b (fun line f declares _ => known line f declares)
      inner set) fun _ => checks

end Beans

/-- Of the aliases that are declared on their own those are reported that the registry refuses. -/
theorem registerDeclaredAlias (a : BeanAlias)
    (refused : ∀ error, allowed (.aliasing a (.refused error))) :
    P (Validator.registerDeclaredAlias a) := by
  rw [registerDeclaredAlias_eq_propose]
  exact closed.propose _ (fun error => closed.reportRefused a error (refused error))
    (closed.pure ())

/-- The tasks of the first pass. -/
theorem declarationTasks (v : Validator) (set : Option String) {config : Context}
    (known : ∀ b ∈ v.checkedBeans config.beans, ∀ line f, v.Declares b f →
      allowed (.bean b line f))
    (refused : ∀ a ∈ config.aliases, ∀ error, allowed (.aliasing a (.refused error))) :
    ∀ task ∈ v.declarationTasks set config, P task := by
  intro task there
  rcases List.mem_append.1 there with bean | declared
  · obtain ⟨b, visited, rfl⟩ := List.mem_map.1 bean
    exact closed.checkDeclaration v b (known b visited) set
  · obtain ⟨a, ha, rfl⟩ := List.mem_map.1 declared
    exact closed.registerDeclaredAlias a (refused a ha)

end ClosedNames

/-! ## Second pass -/

/-- A closed property that look-ups in the registries of `Sees` have as well, and merged
definitions of the beans of `Asked`, what names stand for among them. -/
structure ClosedLookups (allowed : Report → Prop) (Sees : Context → Prop)
    (Asked : Bean → Prop) (P : {α : Type} → Check α → Prop) : Prop extends Closed allowed @P where
  reportAlias (a : BeanAlias) : allowed (.aliasing a .targetNotFound) →
    P (Check.reportAlias a .targetNotFound)
  context {β : Type} {g : Context → Check β} :
    (∀ ctx, Sees ctx → P (g ctx)) → P (Check.context >>= g)
  merged {b : Bean} : Asked b → P (Check.mergedDefinition b)
  found {ctx : Context} {name : String} {b : Bean} : Sees ctx → ctx.resolve? name = some b → Asked b

namespace ClosedLookups

variable {allowed : Report → Prop} {Sees : Context → Prop} {Asked : Bean → Prop}
  {P : {α : Type} → Check α → Prop} (closed : ClosedLookups allowed Sees Asked @P)
include closed

/-- Whether a target is fit to be referred to is told by its merged definition. -/
theorem isInvalidTarget {target : Bean} (asked : Asked target) :
    P (Validator.isInvalidTarget target) :=
  closed.bind (closed.merged asked) fun _ => closed.pure _

/-- The target of an alias is reported if it is missing and counts. -/
theorem checkAliasTarget (v : Validator) (a : BeanAlias)
    (undefined : v.ignores a.beanName = false → allowed (.aliasing a .targetNotFound)) :
    P (v.checkAliasTarget a) := by
  unfold Validator.checkAliasTarget
  cases counts : v.ignores a.beanName with
  | true => exact closed.pure ()
  | false =>
    exact closed.context fun ctx _ =>
      closed.ite (closed.reportAlias a (undefined counts)) (closed.pure ())

variable (v : Validator) (b : Bean)

section Targets

variable (unfit : ∀ line f, v.Unfits f → allowed (.bean b line f))
include unfit

/-- What is made of a reference that leads to a bean. -/
theorem checkTarget (line : Nat) {name : String} (counts : v.ignores name = false)
    {target : Bean} (asked : Asked target) :
    P (Validator.isInvalidTarget target >>= fun invalid =>
      if invalid then Check.reportAt b line (.referenceInvalid name) else Pure.pure ()) := by
  refine closed.bind (closed.isInvalidTarget asked) fun _ => ?_
  exact closed.ite (closed.reportAt b line (unfit _ _ (.invalid counts))) (closed.pure ())

/-- What is made of a reference to a factory that is found. -/
theorem checkFactoryFound (line : Nat) {name : String} (counts : v.ignores name = false)
    (className : Option String) :
    P (match className with
      | none => Pure.pure ()
      | some className =>
        if hasPlaceholder className then
          Pure.pure ()
        else
          Check.findType v className >>= fun type =>
            match type with
            | none =>
              Check.reportAt b line (.factoryReferenceClassNotFound (stripFactoryMark name) name)
            | some type => Check.isFactoryType v type >>= fun isFactory =>
              if !isFactory then
                Check.reportAt b line (.factoryReferenceNoFactory (stripFactoryMark name) name)
              else
                Pure.pure ()) := by
  cases className with
  | none => exact closed.pure ()
  | some className =>
    refine closed.ite (closed.pure ()) (closed.bind (closed.findType v className) fun type => ?_)
    cases type with
    | none =>
      exact closed.reportAt b line (unfit _ _ (.classNotFound counts))
    | some type =>
      refine closed.bind (closed.isFactoryType v type) fun isFactory => ?_
      exact closed.ite (closed.reportAt b line (unfit _ _ (.noFactory counts)))
        (closed.pure ())

/-- Behind a factory mark there has to be a bean that makes others. -/
theorem checkFactoryReference (line : Nat) {name : String} (counts : v.ignores name = false)
    (noFactory : allowed (.bean b line (.factoryReferenceNotFound (stripFactoryMark name) name))) :
    P (v.checkFactoryReference b line name) := by
  refine closed.context fun ctx _ => ?_
  cases ctx.resolve? (stripFactoryMark name) with
  | none => exact closed.reportAt b line noFactory
  | some target => exact closed.checkFactoryFound v b unfit line counts (beanClass ctx target)

end Targets

/-! ### Names that a bean mentions -/

section Names

variable (named : ∀ line f, v.Refers b f → f.isOfMaking = false → allowed (.bean b line f))
include named

/-- A parent is reported that is the bean itself, or that is missing and counts. -/
theorem checkParent (set : Option String) : P (v.checkParent set b) := by
  unfold Validator.checkParent
  cases b.parent with
  | none => exact closed.pure ()
  | some parent =>
    refine closed.ite (closed.report b (named _ _ (.ownParent parent) rfl)) ?_
    cases counts : v.ignores parent with
    | true => exact closed.pure ()
    | false =>
      exact closed.context fun ctx _ => closed.ite
        (closed.report b (named _ _ (.parentNotFound set counts) rfl)) (closed.pure ())

/-- A bean that must come first is reported if it is missing or unfit, and counts. -/
theorem checkDependency (name : String) : P (v.checkDependency b name) := by
  refine closed.guard (closed.pure ()) fun counts => ?_
  rw [Bool.not_eq_true] at counts
  refine closed.context fun ctx sees => ?_
  cases found : ctx.resolve? name with
  | some target =>
    refine closed.bind (closed.isInvalidTarget (closed.found sees found)) fun _ => ?_
    exact closed.ite (closed.report b (named _ _ (.dependsOnInvalid counts) rfl)) (closed.pure ())
  | none => exact closed.report b (named _ _ (.dependsOnNotFound counts) rfl)

/-- Such beans are checked one after the other. -/
theorem checkDependencies (names : List String) : P (v.checkDependencies b names) :=
  closed.list (v.checkDependency b) (v.checkDependencies b) rfl (fun _ _ => rfl)
    (closed.checkDependency v b named) names

variable (dangling : ∀ line f, v.Dangles f → allowed (.bean b line f))
include dangling

/-- A reference is reported if its target is missing or unfit, and counts. -/
theorem checkReference (line : Nat) (name : String) : P (v.checkReference b line name) := by
  refine closed.guard (closed.pure ()) fun counts => ?_
  rw [Bool.not_eq_true] at counts
  refine closed.context fun ctx sees => ?_
  have unfit : ∀ line f, v.Unfits f → allowed (.bean b line f) :=
    fun line f found => named line f (.unfit found) found.isOfMaking
  cases found : ctx.resolve? name with
  | some target => exact closed.checkTarget v b unfit line counts (closed.found sees found)
  | none =>
    exact closed.ite
      (closed.checkFactoryReference v b unfit line counts (dangling _ _ (.marked counts)))
      (closed.reportAt b line (dangling _ _ (.unmarked counts)))

/-- References are checked one after the other. -/
theorem checkReferences (line : Nat) (references : List NamedReference) :
    P (v.checkReferences b line references) := by
  refine closed.list (fun n => v.checkReference b line n.beanName) (v.checkReferences b line) rfl
    (fun n rest => by rw [Validator.checkReferences]) ?_ references
  intro n
  exact closed.checkReference v b named dangling line n.beanName

/-- Those in constructor arguments are checked argument by argument. -/
theorem checkArguments (arguments : List (Option Nat × Argument (Value Bean))) :
    P (v.checkArguments b arguments) :=
  closed.list (fun a => v.checkReferences b a.2.location.startLine
      (a.2.value.namedReferences false)) (v.checkArguments b) rfl (fun _ _ => rfl)
    (fun _ => closed.checkReferences v b named dangling _ _) arguments

/-- Those in properties are checked property by property, where some hold lists of interceptors. -/
theorem checkPropertyValues (properties : List (Property (Value Bean))) :
    P (v.checkPropertyValues b properties) :=
  closed.list (fun p => Check.context >>= fun ctx =>
      v.checkReferences b p.location.startLine (p.value.namedReferences
        (isInterceptorList v.settings.rules ctx b p.name))) (v.checkPropertyValues b) rfl
    (fun _ _ => rfl)
    (fun _ => closed.context fun _ _ => closed.checkReferences v b named dangling _ _) properties

end Names

/-! ### Whole beans -/

variable (known : ∀ line f, v.Refers b f → allowed (.bean b line f))
include known

/-- A factory bean is reported that is the bean itself, or that counts and is missing, abstract or
without a class.  Otherwise the method is checked. -/
theorem checkFactory (factory method : String) : P (v.checkFactory b factory method) := by
  refine closed.guard (closed.report b (known _ _ (.ownFactory factory))) fun other => ?_
  refine closed.guard (closed.pure ()) fun counts => ?_
  rw [Bool.not_eq_true] at counts
  refine closed.context fun ctx sees => ?_
  cases found : ctx.resolve? factory with
  | none => exact closed.report b (known _ _ (.factoryNotFound other counts))
  | some target =>
    refine closed.bind (closed.merged (closed.found sees found)) fun d => ?_
    split
    · exact closed.checkFactoryMethod v b _ method false _
        (fun plain => known _ _ (.factoryClassNotFound plain))
        (fun _ plain => known _ _ (.noFactoryMethod plain))
    · exact closed.report b (known _ _ (.factoryInvalid counts))

/-- The end of `checkBeanReferences`. -/
theorem checkMerged (asked : Asked b) : P (Check.mergedDefinition b >>= fun d =>
    match d.factoryBean, d.factoryMethod with
    | some factory, none => Check.report b (.factoryWithoutMethod factory)
    | some factory, some method => v.checkFactory b factory method
    | none, _ => Pure.pure ()) := by
  refine closed.bind (closed.merged asked) fun d => ?_
  split
  · exact closed.report b (known _ _ (.factoryWithoutMethod _))
  · exact closed.checkFactory v b known _ _
  · exact closed.pure ()

variable (dangling : ∀ line f, v.Dangles f → allowed (.bean b line f))
include dangling

/-- The second pass over a bean. -/
theorem checkBeanReferences (asked : Asked b) (set : Option String) :
    P (v.checkBeanReferences set b) := by
  have named : ∀ line f, v.Refers b f → f.isOfMaking = false → allowed (.bean b line f) :=
    fun line f refers _ => known line f refers
  have arguments := closed.checkArguments v b named dangling b.arguments
  have properties := closed.checkPropertyValues v b named dangling b.properties
  have dependencies := closed.checkDependencies v b named b.definition.dependsOn
  have merged := closed.checkMerged v b known asked
  exact closed.bind (closed.checkParent v b named set) fun _ => closed.bind arguments fun _ =>
    closed.bind properties fun _ => closed.bind dependencies fun _ => merged

omit known dangling in
/-- The tasks of the second pass. -/
theorem referenceTasks (set : Option String) (refused : List BeanId) {config : Context}
    (asked : ∀ b ∈ config.beans, Asked b ∧ ∀ x ∈ b.innerDeep, Asked x)
    (known : ∀ b, v.Checks config refused b → ∀ line f, v.Refers b f ∨ v.Dangles f →
      allowed (.bean b line f))
    (undefined : ∀ a ∈ config.aliases, v.ignores a.beanName = false →
      allowed (.aliasing a .targetNotFound)) :
    ∀ task ∈ v.referenceTasks set refused config, P task := by
  have checked : ∀ b, v.Checks config refused b → Asked b → P (v.referenceTask set false b) :=
    fun b checks asked => closed.checkBeanReferences v b
      (fun line f refers => known b checks line f (.inl refers))
      (fun line f dangles => known b checks line f (.inr dangles)) asked set
  intro task there
  rcases List.mem_append.1 there with bean | declared
  · obtain ⟨b, hb, ofBean⟩ := List.mem_flatMap.1 bean
    unfold beanReferenceTasks at ofBean
    split at ofBean
    · rw [List.mem_singleton.1 ofBean]
      exact closed.pure ()
    · rename_i kept
      rw [not_or, Bool.not_eq_true] at kept
      rcases List.mem_cons.1 ofBean with rfl | nested
      · exact checked b (.own hb kept.1 kept.2) (asked b hb).1
      · obtain ⟨x, within, rfl⟩ := List.mem_map.1 nested
        cases skipped : v.skips x with
        | true => exact closed.pure ()
        | false =>
          exact checked x (.inner hb kept.1 kept.2 within skipped) ((asked b hb).2 x within)
  · obtain ⟨a, ha, rfl⟩ := List.mem_map.1 declared
    exact closed.checkAliasTarget v a (undefined a ha)

end ClosedLookups

end Check

end BeanWiring
