/-
# What makes a bean

A bean is made by a constructor of its class, by a static method of its class, or by a method of a
factory bean.  The first pass checks the class and the static method that the bean itself declares,
the second the factory bean of its merged definition.  Each of these checks finds one thing at
most, and the findings of both passes, in order, are all that a pass reports of what makes the
beans.

Main statements:

* `emits_checkDeclaration`, `emits_checkBeanReferences` : what the two passes report of one bean;
* `pass_emits_making` : what a pass reports of all beans.
-/
import BeanWiring.Proofs.Validation.Emissions

namespace BeanWiring

/-- The report of what was found of a bean, if anything was. -/
def Bean.reports (b : Bean) (found : Option Finding) : List Diagnostic :=
  (found.map fun f => (Report.bean b b.startLine f).toDiagnostic).toList

/-- Where nothing is found, nothing is reported. -/
theorem Bean.reports_none (b : Bean) : b.reports none = [] := rfl

/-- There is one report, of what was found, if anything was. -/
theorem Bean.mem_reports {b : Bean} {found : Option Finding} {d : Diagnostic} :
    d ∈ b.reports found ↔
      ∃ f, found = some f ∧ d = (Report.bean b b.startLine f).toDiagnostic := by
  rw [Bean.reports, Option.mem_toList, Option.map_eq_some_iff]
  exact exists_congr fun f => and_congr_right fun _ => eq_comm

/-- How many arguments the method of a factory bean has to take: those of the bean, unless it is
abstract or a child. -/
def Bean.methodArity (b : Bean) : Arity :=
  if !b.isAbstract && !b.isChild then .exactly b.definition.arguments.size else .any

namespace Validator

/-! ## Findings -/

/-- What is found of a factory method. -/
def factoryMethodFinding? (v : Validator) (className method : String) (isStatic : Bool)
    (arity : Arity) : Option Finding :=
  if hasPlaceholder className || hasPlaceholder method then none
  else
    match v.types.findType? className with
    | none => some (.factoryClassNotFound className)
    | some type =>
      let staticness := if isStatic then Staticness.onType else .onInstance
      if (v.types.findMethod? type ⟨method, arity, staticness, true⟩).isSome then none
      else some (.noFactoryMethod isStatic method className)

/-- What the first pass finds of a factory method declared next to a class, and without a factory
bean. -/
def staticFinding? (v : Validator) (b : Bean) : Option Finding :=
  match b.className, b.definition.factoryMethod, b.definition.factoryBean with
  | some className, some method, none => v.factoryMethodFinding? className method true .any
  | _, _, _ => none

/-- What it finds of the class of a bean that is neither abstract nor a child. -/
def classFinding? (v : Validator) (b : Bean) : Option Finding :=
  match b.className with
  | none => none
  | some className =>
    if !b.isChild && !b.isAbstract && !hasPlaceholder className &&
        (v.types.findType? className).isNone then
      some (.classNotFound className)
    else none

/-- What the second pass finds of a factory bean and the method that makes a bean. -/
def factoryFinding? (v : Validator) (ctx : Context) (b : Bean) (factory method : String) :
    Option Finding :=
  if factory = b.name then some (.ownFactory factory)
  else if v.ignores factory then none
  else
    match ctx.resolve? factory with
    | none => some (.factoryNotFound factory)
    | some target =>
      match (merged ctx target).className, (merged ctx target).isAbstract with
      | some className, false => v.factoryMethodFinding? className method false b.methodArity
      | _, _ => some (.factoryInvalid factory)

/-- What it finds of the factory bean that the merged definition of a bean names. -/
def mergedFinding? (v : Validator) (ctx : Context) (b : Bean) : Option Finding :=
  match (merged ctx b).factoryBean, (merged ctx b).factoryMethod with
  | some factory, none => some (.factoryWithoutMethod factory)
  | some factory, some method => v.factoryFinding? ctx b factory method
  | none, _ => none

section Findings

variable {v : Validator} {ctx : Context} {b : Bean} {className method : String} {isStatic : Bool}
  {arity : Arity} {f : Finding}

/-- A class that is looked up and not found. -/
def LacksType (v : Validator) (className : String) : Prop :=
  hasPlaceholder className = false ∧ v.types.findType? className = none

/-- A factory method that is looked up and not found, in a class that is. -/
def LacksMethod (v : Validator) (className method : String) (isStatic : Bool) (arity : Arity) :
    Prop :=
  hasPlaceholder className = false ∧ hasPlaceholder method = false ∧
    ∃ type, v.types.findType? className = some type ∧
      v.types.findMethod? type
        ⟨method, arity, if isStatic then .onType else .onInstance, true⟩ = none

/-- Of a factory method the class is missing, or the method in it. -/
theorem factoryMethodFinding?_eq_some_iff :
    v.factoryMethodFinding? className method isStatic arity = some f ↔
      v.LacksType className ∧ hasPlaceholder method = false ∧ f = .factoryClassNotFound className ∨
        v.LacksMethod className method isStatic arity ∧
          f = .noFactoryMethod isStatic method className := by
  unfold factoryMethodFinding? LacksType LacksMethod
  cases hasPlaceholder className with
  | true => simp
  | false =>
    cases hasPlaceholder method with
    | true => simp
    | false =>
      cases v.types.findType? className with
      | none => simp [@eq_comm _ f]
      | some type => simp [@eq_comm _ f]

/-- The first pass looks for the factory method in the declared class, if no factory bean is
declared. -/
theorem staticFinding?_eq_some_iff :
    v.staticFinding? b = some f ↔ ∃ className method, b.className = some className ∧
      b.definition.factoryMethod = some method ∧ b.definition.factoryBean = none ∧
      v.factoryMethodFinding? className method true .any = some f := by
  unfold staticFinding?
  cases b.className with
  | none => simp
  | some className =>
    cases b.definition.factoryMethod with
    | none => simp
    | some method => cases b.definition.factoryBean <;> simp

/-- A missing class is found of beans that are neither abstract nor children, and of no others. -/
theorem classFinding?_eq_some_iff :
    v.classFinding? b = some f ↔ ∃ className, b.className = some className ∧
      b.isChild = false ∧ b.isAbstract = false ∧ v.LacksType className ∧
      f = .classNotFound className := by
  unfold classFinding? LacksType
  cases b.className with
  | none => simp
  | some className =>
    cases b.isChild <;> cases b.isAbstract <;> cases hasPlaceholder className <;>
      cases v.types.findType? className <;> simp [@eq_comm _ f]

/-- The second pass finds that a bean is its own factory, that the factory bean is missing or
invalid, or what there is to find of its method. -/
theorem factoryFinding?_eq_some_iff {factory : String} :
    v.factoryFinding? ctx b factory method = some f ↔
      factory = b.name ∧ f = .ownFactory factory ∨
        factory ≠ b.name ∧ v.ignores factory = false ∧
          (ctx.resolve? factory = none ∧ f = .factoryNotFound factory ∨
            ∃ target, ctx.resolve? factory = some target ∧
              ((∃ className, (merged ctx target).className = some className ∧
                  (merged ctx target).isAbstract = false ∧
                  v.factoryMethodFinding? className method false b.methodArity = some f) ∨
                ((merged ctx target).className = none ∨ (merged ctx target).isAbstract = true) ∧
                  f = .factoryInvalid factory)) := by
  unfold factoryFinding?
  by_cases own : factory = b.name
  · simp [own, @eq_comm _ f]
  · cases ignored : v.ignores factory with
    | true => simp [own]
    | false =>
      cases found : ctx.resolve? factory with
      | none => simp [own, @eq_comm _ f]
      | some target =>
        have valid : ∀ (name : Option String) (abstract : Bool),
            (match name, abstract with
              | some className, false =>
                v.factoryMethodFinding? className method false b.methodArity
              | _, _ => some (.factoryInvalid factory)) = some f ↔
              (∃ className, name = some className ∧ abstract = false ∧
                v.factoryMethodFinding? className method false b.methodArity = some f) ∨
                (name = none ∨ abstract = true) ∧ f = .factoryInvalid factory := by
          intro name abstract
          cases name <;> cases abstract <;> simp [@eq_comm _ f]
        simpa [own] using valid (merged ctx target).className (merged ctx target).isAbstract

/-- Something is found of a merged definition that names a factory bean: that the method is missing,
or what there is to find of the two. -/
theorem mergedFinding?_eq_some_iff :
    v.mergedFinding? ctx b = some f ↔ ∃ factory, (merged ctx b).factoryBean = some factory ∧
      ((merged ctx b).factoryMethod = none ∧ f = .factoryWithoutMethod factory ∨
        ∃ method, (merged ctx b).factoryMethod = some method ∧
          v.factoryFinding? ctx b factory method = some f) := by
  unfold mergedFinding?
  cases (merged ctx b).factoryBean with
  | none => simp
  | some factory => cases (merged ctx b).factoryMethod <;> simp [@eq_comm _ f]

end Findings

/-- The reports of the first pass on what makes a bean. -/
def declaredReports (v : Validator) (b : Bean) : List Diagnostic :=
  b.reports (v.staticFinding? b) ++ b.reports (v.classFinding? b)

/-- The reports of the second pass. -/
def mergedReports (v : Validator) (ctx : Context) (b : Bean) : List Diagnostic :=
  b.reports (v.mergedFinding? ctx b)

/-! ## Reports that count -/

/-- Only reports on what makes a bean count. -/
structure CountsMaking (counts : Diagnostic → Bool) : Prop where
  bean : ∀ b line f, f.isOfMaking = false →
    counts (Report.bean b line f).toDiagnostic = false
  dangling : ∀ v : Validator, ∀ b line f, v.Dangles f →
    counts (Report.bean b line f).toDiagnostic = false
  aliasing : ∀ a f, counts (Report.aliasing a f).toDiagnostic = false

end Validator

namespace Check

open Validator

variable {I : Run → Prop} {counts : Diagnostic → Bool} {ds : List Diagnostic} {β : Type}

/-! ## Single steps -/

section About

variable (about : Run.IsAboutMemory I)
include about

/-- A report emits itself, if it counts. -/
theorem emits_report (b : Bean) (f : Finding) :
    Emits I counts (report b f) ((b.reports (some f)).filter counts) :=
  emits_reportAt about b b.startLine f

/-- The look-up of a type emits nothing, and goes on with the type. -/
theorem Emits.findType_bind {v : Validator} {name : String} {g : Option String → Check β}
    (h : Emits I counts (g (v.types.findType? name)) ds) :
    Emits I counts (findType v name >>= g) ds := by
  intro run known
  exact h _ (about run _ rfl rfl known)

/-- The look-up of a method emits nothing, and goes on with whether there is one. -/
theorem Emits.hasMethod_bind {v : Validator} {type : String} {query : MethodQuery}
    {g : Bool → Check β} (h : Emits I counts (g (v.types.findMethod? type query).isSome) ds) :
    Emits I counts (hasMethod v type query >>= g) ds := by
  intro run known
  exact h _ (about run _ rfl rfl known)

/-- The check of a factory method emits what is found of it, once. -/
theorem emits_checkFactoryMethod (v : Validator) (b : Bean) (className method : String)
    (isStatic : Bool) (arity : Arity) :
    Emits I counts (v.checkFactoryMethod b className method isStatic arity)
      ((b.reports (v.factoryMethodFinding? className method isStatic arity)).filter counts) := by
  unfold checkFactoryMethod factoryMethodFinding?
  by_cases placeholder : (hasPlaceholder className || hasPlaceholder method) = true
  · rw [if_pos placeholder, if_pos placeholder]
    exact Emits.pure ()
  · rw [if_neg placeholder, if_neg placeholder]
    refine Emits.findType_bind about ?_
    cases v.types.findType? className with
    | none => exact emits_report about b (.factoryClassNotFound className)
    | some type =>
      refine Emits.hasMethod_bind about ?_
      dsimp only
      cases (v.types.findMethod? type _).isSome with
      | true => exact Emits.pure ()
      | false => exact emits_report about b (.noFactoryMethod isStatic method className)

end About

/-! ## First pass -/

section Declared

variable (only : CountsMaking counts) (v : Validator) (b : Bean)
include only

/-- The end of `checkRoot`. -/
theorem emits_checkDeclaredClass (root : b.isChild = false) :
    Emits Run.IsFresh counts (match b.className with
      | some className => v.checkClass b className
      | none => Pure.pure ()) ((b.reports (v.classFinding? b)).filter counts) := by
  have about := Run.isAboutMemory_isFresh
  have others : ∀ line f, Mismatches f → f.isOfMaking = false →
      counts (Report.bean b line f).toDiagnostic = false := fun line f _ => only.bean b line f
  unfold classFinding?
  cases b.className with
  | none => exact Emits.pure ()
  | some className =>
    unfold checkClass
    dsimp only
    cases placeholder : hasPlaceholder className with
    | true => simpa [Bean.reports_none] using Emits.pure ()
    | false =>
      rw [if_neg Bool.false_ne_true]
      refine Emits.findType_bind about ?_
      cases found : v.types.findType? className with
      | some type =>
        simpa [found, Bean.reports_none] using (closed_silent about).checkMembers v b others type
      | none =>
        cases abstract : b.isAbstract with
        | true => simpa [found, Bean.reports_none] using Emits.pure ()
        | false => simpa [found, root] using emits_report about b (.classNotFound className)

/-- Of a bean that is no child the first pass emits what is found of its class. -/
theorem emits_checkRoot (root : b.isChild = false) :
    Emits Run.IsFresh counts (v.checkRoot b) ((b.reports (v.classFinding? b)).filter counts) := by
  have ofClass := emits_checkDeclaredClass only v b root
  unfold checkRoot
  cases b.definition.fault? with
  | none => exact ofClass
  | some fault =>
    exact Silent.bind ((closed_silent Run.isAboutMemory_isFresh).report b
      (only.bean b _ (.invalidDefinition fault) rfl)) fun _ => ofClass

/-- What the first pass reports of a bean, unless it is skipped. -/
theorem emits_checkDeclaration (set : Option String) :
    Emits Run.IsFresh counts (v.checkDeclaration set b)
      (if v.skips b then [] else (v.declaredReports b).filter counts) := by
  have about := Run.isAboutMemory_isFresh
  have root : Emits Run.IsFresh counts (if !b.isChild then v.checkRoot b else Pure.pure ())
      ((b.reports (v.classFinding? b)).filter counts) := by
    cases child : b.isChild with
    | false => exact emits_checkRoot only v b child
    | true =>
      have none : v.classFinding? b = none := by
        unfold classFinding?
        cases b.className <;> simp [child]
      rw [none]
      exact Emits.pure ()
  have made : Emits Run.IsFresh counts
      (match b.className, b.definition.factoryMethod, b.definition.factoryBean with
        | some className, some method, none =>
          v.checkFactoryMethod b className method true .any >>= fun _ =>
            if !b.isChild then v.checkRoot b else Pure.pure ()
        | _, _, _ => if !b.isChild then v.checkRoot b else Pure.pure ())
      ((v.declaredReports b).filter counts) := by
    unfold declaredReports staticFinding?
    rw [List.filter_append]
    split
    · exact Emits.bind (emits_checkFactoryMethod about v b _ _ true .any) fun _ => root
    · exact root
  have checks : Emits Run.IsFresh counts (if v.skips b then Pure.pure () else _) _ :=
    Emits.unless made
  unfold checkDeclaration
  cases inner : b.isInner with
  | true => exact checks
  | false =>
    exact Silent.bind (closedNames_silent.registerBean v b (fun line f _ => only.bean b line f)
      inner set) fun _ => checks

end Declared

/-! ## Second pass -/

section Merged

variable {ctx : Context} {P : Bean → Prop} (agree : MergesById ctx P)
  (targets : ∀ b ∈ ctx.allBeans, P b)
include agree targets

/-- The check of a factory bean emits what is found of it. -/
theorem emits_checkFactory (v : Validator) (b : Bean) (factory method : String) :
    Emits (Run.IsFaithful ctx P) counts (v.checkFactory b factory method)
      ((b.reports (v.factoryFinding? ctx b factory method)).filter counts) := by
  have about : Run.IsAboutMemory (Run.IsFaithful ctx P) := Run.isAboutMemory_isFaithful
  unfold checkFactory factoryFinding?
  by_cases own : factory = b.name
  · rw [if_pos own, if_pos own]
    exact emits_report about b (.ownFactory factory)
  · rw [if_neg own, if_neg own]
    cases ignored : v.ignores factory with
    | true => exact Emits.pure ()
    | false =>
      rw [if_neg Bool.false_ne_true, if_neg Bool.false_ne_true]
      refine Emits.context_bind ?_
      cases found : ctx.resolve? factory with
      | none => exact emits_report about b (.factoryNotFound factory)
      | some target =>
        refine Emits.merged_bind agree (targets target (Context.resolve?_mem found)) ?_
        have invalid : Emits (Run.IsFaithful ctx P) counts
            (Check.report b (.factoryInvalid factory)) _ :=
          emits_report about b (.factoryInvalid factory)
        dsimp only
        cases (merged ctx target).className with
        | none => exact invalid
        | some className =>
          cases (merged ctx target).isAbstract with
          | true => exact invalid
          | false => exact emits_checkFactoryMethod about v b className method false _

/-- What the second pass reports of a bean. -/
theorem emits_checkBeanReferences (only : CountsMaking counts) (v : Validator) {b : Bean}
    (asked : P b) (set : Option String) :
    Emits (Run.IsFaithful ctx P) counts (v.checkBeanReferences set b)
      ((v.mergedReports ctx b).filter counts) := by
  have about : Run.IsAboutMemory (Run.IsFaithful ctx P) := Run.isAboutMemory_isFaithful
  have lookups : ClosedLookups _ _ P (Silent (Run.IsFaithful ctx P) counts) :=
    closedLookups_silent agree targets
  have named : ∀ line f, v.Refers b f → f.isOfMaking = false →
      counts (Report.bean b line f).toDiagnostic = false := fun line f _ => only.bean b line f
  have dangling := only.dangling v b
  refine Silent.bind (lookups.checkParent v b named set) fun _ => ?_
  refine Silent.bind (lookups.checkArguments v b named dangling b.arguments) fun _ => ?_
  refine Silent.bind (lookups.checkPropertyValues v b named dangling b.properties) fun _ => ?_
  refine Silent.bind (lookups.checkDependencies v b named b.definition.dependsOn) fun _ => ?_
  refine Emits.merged_bind agree asked ?_
  unfold mergedReports mergedFinding?
  cases (merged ctx b).factoryBean with
  | none => exact Emits.pure ()
  | some factory =>
    cases (merged ctx b).factoryMethod with
    | none => exact emits_report about b (.factoryWithoutMethod factory)
    | some method => exact emits_checkFactory agree targets v b factory method

end Merged

end Check

/-! ## Passes -/

namespace Validator

open Check

variable {v : Validator} {counts : Diagnostic → Bool} {config : Context}

/-- The beans whose definitions the first pass checks. -/
def declaredBeans (v : Validator) (config : Context) : List Bean :=
  config.beans.flatMap v.definitionsChecked

/-- The beans whose references the second pass checks, when the beans of `refused` could not be
registered. -/
def referringBeans (v : Validator) (config : Context) (refused : List BeanId) : List Bean :=
  (config.beans.filter (·.id ∉ refused)).flatMap v.referencesChecked

/-- The second pass checks the references of the beans that were registered and of those nested in
them, apart from what is skipped. -/
theorem mem_referringBeans_iff {refused : List BeanId} {x : Bean} :
    x ∈ v.referringBeans config refused ↔ v.Checks config refused x := by
  simp only [checks_iff, referringBeans, List.mem_flatMap, List.mem_filter, decide_eq_true_iff,
    and_assoc]

/-- What is added for the entries of a list that are left in, is added for those left in. -/
theorem flatMap_filter {A B : Type} (p : A → Bool) (f : A → List B) (xs : List A) :
    (xs.filter p).flatMap f = xs.flatMap fun x => if p x then f x else [] := by
  induction xs with
  | nil => rfl
  | cons x xs ih =>
    rw [List.flatMap_cons, ← ih, List.filter_cons]
    cases p x with
    | true => rfl
    | false => rfl

/-- The first part of a pass, each time that the config has its turn. -/
theorem declarationTasks_emit (only : CountsMaking counts) (v : Validator) (set : Option String)
    (config : Context) :
    EmitsInTurn Run.IsFresh counts (v.declarationTasks set config)
      (((v.declaredBeans config).flatMap v.declaredReports).filter counts) := by
  have about := Run.isAboutMemory_isFresh
  have beans := EmitsInTurn.map about (v.checkedBeans config.beans)
    fun b _ => emits_checkDeclaration only v b set
  have aliases := EmitsInTurn.map_silent about config.aliases fun a _ =>
    closedNames_silent.registerDeclaredAlias a fun error => only.aliasing a (.refused error)
  have left : (v.checkedBeans config.beans).flatMap
        (fun b => if v.skips b then [] else (v.declaredReports b).filter counts)
      = ((v.declaredBeans config).flatMap v.declaredReports).filter counts := by
    have visited : v.declaredBeans config
        = (v.checkedBeans config.beans).filter fun x => !v.skips x := by
      rw [declaredBeans, checkedBeans_eq_flatMap, List.filter_flatMap]
      rfl
    rw [visited, List.filter_flatMap, flatMap_filter]
    refine List.flatMap_congr fun b _ => ?_
    cases v.skips b <;> rfl
  rw [left] at beans
  have tasks := beans.append aliases
  rwa [List.append_nil] at tasks

section Second

variable {ctx : Context} {P : Bean → Prop} (agree : MergesById ctx P)
  (targets : ∀ b ∈ ctx.allBeans, P b) (only : CountsMaking counts) (set : Option String)
include agree targets only

/-- A task of the second pass emits the reports on the merged definition, unless it is skipped. -/
theorem referenceTask_emits {x : Bean} (asked : P x) (skipped : Bool) :
    Emits (Run.IsFaithful ctx P) counts (v.referenceTask set skipped x)
      (if skipped then [] else (v.mergedReports ctx x).filter counts) :=
  Emits.unless (emits_checkBeanReferences agree targets only v asked set)

/-- The tasks of a bean emit the reports on the bean and on those nested in it. -/
theorem beanReferenceTasks_emit (refused : List BeanId) {b : Bean} (own : P b)
    (inner : ∀ x ∈ b.innerDeep, P x) :
    EmitsInTurn (Run.IsFaithful ctx P) counts (v.beanReferenceTasks set refused b)
      (if b.id ∉ refused then
        ((v.referencesChecked b).flatMap (v.mergedReports ctx)).filter counts else []) := by
  have about : Run.IsAboutMemory (Run.IsFaithful ctx P) := Run.isAboutMemory_isFaithful
  unfold beanReferenceTasks referencesChecked
  by_cases accepted : b.id ∈ refused
  · rw [if_pos (.inl accepted), if_neg (not_not.2 accepted)]
    exact .single about (Emits.pure ())
  · rw [if_pos accepted]
    cases kept : v.skips b with
    | true =>
      rw [if_pos (.inr rfl), if_pos rfl]
      exact .single about (Emits.pure ())
    | false =>
      rw [if_neg (by simp [accepted]), if_neg Bool.false_ne_true]
      have itself := EmitsInTurn.single about
        (referenceTask_emits agree targets only set own (v := v) false)
      have nested := EmitsInTurn.map about b.innerDeep fun x within =>
        referenceTask_emits agree targets only set (inner x within) (v := v) (v.skips x)
      have left : (v.keptIn b).flatMap (fun x => (v.mergedReports ctx x).filter counts)
          = (v.mergedReports ctx b).filter counts ++ b.innerDeep.flatMap fun x =>
              if v.skips x then [] else (v.mergedReports ctx x).filter counts := by
        rw [keptIn, flatMap_filter, List.flatMap_cons, kept]
        refine congrArg (_ ++ ·) (List.flatMap_congr fun x _ => ?_)
        cases v.skips x <;> rfl
      rw [List.filter_flatMap, left]
      exact itself.append nested

/-- The tasks of the second pass emit the reports on all the beans that it checks. -/
theorem referenceTasks_emit (refused : List BeanId)
    (asked : ∀ b ∈ config.beans, P b ∧ ∀ x ∈ b.innerDeep, P x) :
    EmitsInTurn (Run.IsFaithful ctx P) counts (v.referenceTasks set refused config)
      (((v.referringBeans config refused).flatMap (v.mergedReports ctx)).filter counts) := by
  have about : Run.IsAboutMemory (Run.IsFaithful ctx P) := Run.isAboutMemory_isFaithful
  have lookups : ClosedLookups _ _ P (Silent (Run.IsFaithful ctx P) counts) :=
    closedLookups_silent agree targets
  have beans := EmitsInTurn.flatMap config.beans fun b declared =>
    beanReferenceTasks_emit agree targets only set (v := v) refused (asked b declared).1
      (asked b declared).2
  have aliases := EmitsInTurn.map_silent about config.aliases fun a _ =>
    lookups.checkAliasTarget v a fun _ => only.aliasing a .targetNotFound
  have left : config.beans.flatMap (fun b => if b.id ∉ refused then
        ((v.referencesChecked b).flatMap (v.mergedReports ctx)).filter counts else [])
      = ((v.referringBeans config refused).flatMap (v.mergedReports ctx)).filter counts := by
    rw [referringBeans, List.flatMap_assoc, List.filter_flatMap, flatMap_filter]
    simp only [decide_eq_true_iff]
  rw [left] at beans
  have tasks := beans.append aliases
  rwa [List.append_nil] at tasks

end Second

/-- The second part of a pass, where it remembers the merged definitions of the beans. -/
theorem referencePass_emits (only : CountsMaking counts) {interrupt : Interrupt}
    {set : Option SetView} {name : Option String} {declared run' : Run} (fresh : declared.IsFresh)
    (final : declared.roll = v.finalRoll config set)
    (done : v.referencePass interrupt name config declared = .ok run') :
    ∃ second, run'.diagnostics.toList = declared.diagnostics.toList ++ second ∧
      (MergesById (v.finalContext config set) (Asked (v.finalContext config set) config) →
        second.filter counts = ((v.referringBeans config run'.unregistered).flatMap
          (v.mergedReports (v.finalContext config set))).filter counts) := by
  obtain ⟨rolls, second, appended, -⟩ := performs_referenceTasks v name declared.unregistered
    config interrupt declared run' done
  refine ⟨second, appended, fun agree => ?_⟩
  have refused : declared.unregistered = run'.unregistered := congrArg Roll.refused rolls.symm
  have current := congrArg (fun r => r.registry.toContext) final
  obtain ⟨-, adds⟩ := referenceTasks_emit agree asked_of_registered only name
    declared.unregistered asked_of_declared interrupt declared run' (fresh.isFaithful current _)
    done
  rw [← refused]
  exact adds.filter_eq appended

/-- What a pass reports of what makes the beans: in the first part of the beans whose definitions
are checked, each time that the config has its turn, and in the second of those whose references
are checked.  The second part needs the merged definitions to be those of the beans. -/
theorem pass_emits_making (only : CountsMaking counts) {interrupt : Interrupt}
    {set : Option SetView} {run run' : Run}
    (done : v.pass interrupt config set run = .ok run') :
    ∃ first second, run'.diagnostics.toList = run.diagnostics.toList ++ (first ++ second) ∧
      first.filter counts = (turns set).flatMap (fun _ =>
        ((v.declaredBeans config).flatMap v.declaredReports).filter counts) ∧
      (checksReferences set = false → second = []) ∧
      (checksReferences set = true →
        MergesById (v.finalContext config set) (Asked (v.finalContext config set) config) →
          second.filter counts = ((v.referringBeans config run'.unregistered).flatMap
            (v.mergedReports (v.finalContext config set))).filter counts) := by
  obtain ⟨declared, fresh, final, ⟨first, appended, exact⟩, rest⟩ :=
    pass_emits (fun set => declarationTasks_emit only v set config) done
  cases checks : checksReferences set with
  | false =>
    rw [checks, if_neg Bool.false_ne_true] at rest
    subst rest
    exact ⟨first, [], by rw [List.append_nil, appended], exact, fun _ => rfl, nofun⟩
  | true =>
    rw [checks, if_pos rfl] at rest
    obtain ⟨second, appended', exact'⟩ := referencePass_emits only fresh final rest
    refine ⟨first, second, ?_, exact, nofun, fun _ => exact'⟩
    rw [appended', appended, List.append_assoc]

end Validator

end BeanWiring
