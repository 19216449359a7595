/-
# Factory beans that are not found

A bean whose merged definition names a factory bean that does not exist is reported once for it in
the second pass, and nothing is said of the factory method then.  The first pass looks at the
definition that the bean itself declares: where that has a class and a factory method, and inherits
the factory bean, the method is sought in the class, although the class does not make the bean.
So the bean may be reported a second time, for a method that nothing calls.

Main statements:

* `mergedReports_of_lacksFactory` : what the second pass reports of a missing factory bean;
* `methodReports_eq_nil_iff` : when the first pass reports a method of the bean's own class;
* `missingFactories_of_pass` : what a pass reports of factory beans and their methods.
-/
import BeanWiring.Proofs.Validation.Making

namespace BeanWiring

/-- The report that the factory bean of a bean is not found. -/
def missingFactory (b : Bean) (factory : String) : Diagnostic :=
  (Report.bean b b.startLine (.factoryNotFound factory)).toDiagnostic

/-- The report that a class has no static method of a name, which a bean declares. -/
def missingStaticMethod (b : Bean) (className method : String) : Diagnostic :=
  (Report.bean b b.startLine (.noFactoryMethod true method className)).toDiagnostic

namespace Validator

/-- Whether a diagnostic is an error about a factory bean or a factory method. -/
def isFactoryError (d : Diagnostic) : Bool :=
  d.severity = .error &&
    (d.code = some "UNDEFINED_FACTORY_BEAN" || d.code = some "UNDEFINED_FACTORY_BEAN_METHOD")

theorem countsMaking_isFactoryError : CountsMaking isFactoryError where
  bean b line f other := by
    cases f <;> first | rfl | cases other
  dangling v b line f dangles := by
    cases dangles <;> rfl
  aliasing a f := by
    cases f <;> rfl

/-! ## Second pass -/

/-- The merged definition of a bean names a factory bean with a method.  The factory bean counts,
is not the bean itself, and does not exist. -/
structure LacksFactory (v : Validator) (ctx : Context) (b : Bean) (factory : String) : Prop where
  named : (merged ctx b).factoryBean = some factory
  byMethod : (merged ctx b).factoryMethod.isSome = true
  other : factory ≠ b.name
  counts : v.ignores factory = false
  missing : ctx.resolve? factory = none

section Merged

variable {v : Validator} {ctx : Context} {b : Bean} {factory : String}

/-- A factory bean that does not exist is all that the second pass reports of what makes a bean. -/
theorem mergedReports_of_lacksFactory (h : v.LacksFactory ctx b factory) :
    v.mergedReports ctx b = [missingFactory b factory] := by
  obtain ⟨method, byMethod⟩ := Option.isSome_iff_exists.1 h.byMethod
  have found : v.mergedFinding? ctx b = some (.factoryNotFound factory) :=
    mergedFinding?_eq_some_iff.2 ⟨factory, h.named, .inr ⟨method, byMethod,
      factoryFinding?_eq_some_iff.2 (.inr ⟨h.other, h.counts, .inl ⟨h.missing, rfl⟩⟩)⟩⟩
  rw [mergedReports, found]
  rfl

end Merged

/-! ## First pass -/

/-- A bean declares a class and a factory method, and no factory bean; the class is found, and has
no such static method. -/
structure LacksStaticMethod (v : Validator) (b : Bean) (className method : String) : Prop where
  ofClass : b.className = some className
  byMethod : b.definition.factoryMethod = some method
  alone : b.definition.factoryBean = none
  missing : v.LacksMethod className method true .any

/-- The reports of the first pass about factory methods. -/
def methodReports (v : Validator) (b : Bean) : List Diagnostic :=
  (v.declaredReports b).filter isFactoryError

section Declared

variable {v : Validator} {b : Bean} {className method : String}

/-- A method that the class of the bean does not have is reported once. -/
theorem methodReports_of_lacksStaticMethod (h : v.LacksStaticMethod b className method) :
    v.methodReports b = [missingStaticMethod b className method] := by
  have static : v.staticFinding? b = some (.noFactoryMethod true method className) :=
    staticFinding?_eq_some_iff.2 ⟨className, method, h.ofClass, h.byMethod, h.alone,
      factoryMethodFinding?_eq_some_iff.2 (.inr ⟨h.missing, rfl⟩)⟩
  have found : v.classFinding? b = none := by
    by_contra reported
    obtain ⟨f, found⟩ := Option.ne_none_iff_exists'.1 reported
    obtain ⟨name, named, -, -, lacks, -⟩ := classFinding?_eq_some_iff.1 found
    obtain ⟨-, -, type, known, -⟩ := h.missing
    rw [h.ofClass] at named
    cases named
    cases lacks.2.symm.trans known
  rw [methodReports, declaredReports, static, found]
  rfl

/-- Otherwise nothing is reported about factory methods. -/
theorem methodReports_eq_nil_iff :
    v.methodReports b = [] ↔ ∀ className method, ¬v.LacksStaticMethod b className method := by
  constructor
  · intro none className method lacks
    rw [methodReports_of_lacksStaticMethod lacks] at none
    cases none
  · intro fine
    rw [methodReports, List.filter_eq_nil_iff]
    intro d there counts
    rcases List.mem_append.1 there with static | ofClass
    · obtain ⟨f, found, rfl⟩ := Bean.mem_reports.1 static
      obtain ⟨className, method, declared, byMethod, alone, found⟩ :=
        staticFinding?_eq_some_iff.1 found
      rcases factoryMethodFinding?_eq_some_iff.1 found with ⟨-, -, rfl⟩ | ⟨lacks, rfl⟩
      · cases counts
      · exact fine className method ⟨declared, byMethod, alone, lacks⟩
    · obtain ⟨f, found, rfl⟩ := Bean.mem_reports.1 ofClass
      obtain ⟨_, -, -, -, -, rfl⟩ := classFinding?_eq_some_iff.1 found
      cases counts

end Declared

/-! ## Passes -/

/-- **Missing factory beans.**  If the factory bean of a bean does not exist, then the second pass
reports this alone, of all that makes the bean.  The first pass reports a factory method exactly if
the bean declares a class that does not have it, and declares no factory bean; whether it inherits
one does not matter.  These are all errors that a pass adds about factory beans and factory methods:
those of the first pass, of all beans whose definitions it checks, and then those of the second, of
all beans whose references it checks. -/
theorem missingFactories_of_pass (v : Validator) :
    (∀ ctx b factory, v.LacksFactory ctx b factory →
      v.mergedReports ctx b = [missingFactory b factory]) ∧
    (∀ b, (v.methodReports b = [] ↔ ∀ className method, ¬v.LacksStaticMethod b className method) ∧
      ∀ className method, v.LacksStaticMethod b className method →
        v.methodReports b = [missingStaticMethod b className method]) ∧
    ∀ (config : Context) (set : Option SetView) (run : Run),
      (∃ run', v.pass (fun _ _ => false) config set run = .ok run') ∧
      ∀ (interrupt : Interrupt) (run' : Run), v.pass interrupt config set run = .ok run' →
        ∃ first second,
          run'.diagnostics.toList = run.diagnostics.toList ++ (first ++ second) ∧
          first.filter isFactoryError = (turns set).flatMap (fun _ =>
            (v.declaredBeans config).flatMap v.methodReports) ∧
          (checksReferences set = false → second = []) ∧
          (checksReferences set = true →
            MergesById (v.finalContext config set) (Asked (v.finalContext config set) config) →
              second.filter isFactoryError
                = (v.referringBeans config run'.unregistered).flatMap fun x =>
                    (v.mergedReports (v.finalContext config set) x).filter isFactoryError) := by
  refine ⟨fun ctx b factory => mergedReports_of_lacksFactory,
    fun b => ⟨methodReports_eq_nil_iff, fun _ _ => methodReports_of_lacksStaticMethod⟩,
    fun config set run => ⟨pass_completes v config set run, ?_⟩⟩
  intro interrupt run' done
  obtain ⟨first, second, appended, declares, none, refers⟩ :=
    pass_emits_making countsMaking_isFactoryError done
  refine ⟨first, second, appended, ?_, none, fun checks agree => ?_⟩
  · rw [declares, List.filter_flatMap]
    rfl
  · rw [refers checks agree, List.filter_flatMap]

/-! ### An inherited factory bean -/

namespace Inherited

/-- An abstract bean that would be made by `f`. -/
def template : Bean :=
  .named "beans.xml"
    ⟨"p", [], { factoryBean := some "f", factoryMethod := some "make", isAbstract := true
                location := .atLine "beans.xml" 1 }⟩

/-- A child of it, with a class and a method of its own. -/
def child : Bean :=
  .named "beans.xml"
    ⟨"b", [], { parent := some "p", className := some "C", factoryMethod := some "create"
                location := .atLine "beans.xml" 2 }⟩

/-- A config with the two beans. -/
def config : Context := { name := "beans.xml", kind := .config, beans := [template, child] }

/-- The class is known, and has no methods. -/
def validator : Validator := { types := { classes := [{ name := "C" }] } }

/-- The two beans have identities of their own. -/
theorem hasOwnIds {bs : List Bean} (declared : ∀ b ∈ bs, b = template ∨ b = child) :
    Bean.HasOwnIds bs := by
  refine Bean.hasOwnIds_of_flat ?_ ?_ ?_
  · intro b hb
    rcases declared b hb with rfl | rfl <;> exact ⟨_, rfl⟩
  · have other : "p" ≠ "b" := by decide
    intro b hb c hc same
    rcases declared b hb with rfl | rfl <;> rcases declared c hc with rfl | rfl
    · rfl
    · exact absurd same other
    · exact absurd same other.symm
    · rfl
  · intro b hb
    rcases declared b hb with rfl | rfl <;> rfl

/-- The names that a pass over the config looks up. -/
abbrev names : Context := validator.finalContext config none

/-- Both beans lack their factory bean. -/
theorem lacksFactory : validator.LacksFactory names template "f" ∧
    validator.LacksFactory names child "f" :=
  ⟨⟨rfl, rfl, by decide, by decide, rfl⟩, ⟨rfl, rfl, by decide, by decide, rfl⟩⟩

/-- The child lacks its method. -/
theorem lacksStaticMethod : validator.LacksStaticMethod child "C" "create" :=
  ⟨rfl, rfl, rfl, by decide, by decide, "C", rfl, rfl⟩

/-- The missing factory bean is reported of both beans, and of the child also the method that its
class does not have. -/
theorem missingFactories_of_config :
    ∃ run', validator.pass (fun _ _ => false) config none {} = .ok run' ∧
      ∃ first second, run'.diagnostics.toList = first ++ second ∧
        first.filter isFactoryError = [missingStaticMethod child "C" "create"] ∧
        second.filter isFactoryError = [missingFactory template "f", missingFactory child "f"] := by
  obtain ⟨factories, methods, passes⟩ := missingFactories_of_pass validator
  obtain ⟨⟨run', done⟩, all⟩ := passes config none {}
  obtain ⟨first, second, appended, declares, -, refers⟩ := all _ run' done
  refine ⟨run', done, first, second, appended, declares.trans ?_, (refers rfl ?_).trans ?_⟩
  · have declared : validator.declaredBeans config = [template, child] := rfl
    have own : turns none = [.self] := rfl
    have fine : validator.methodReports template = [] :=
      (methods template).1.2 fun _ _ lacks => by cases lacks.ofClass
    rw [own, List.flatMap_singleton, declared, List.flatMap_cons, List.flatMap_singleton, fine,
      (methods child).2 "C" "create" lacksStaticMethod, List.nil_append]
  · refine (hasOwnIds fun b hb => ?_).mergesById names
    have registered : names.allBeans = [template, child] := rfl
    rw [registered] at hb
    rcases List.mem_append.1 hb with there | there
    · simpa using there
    · simpa [config] using there
  · have accepted : run'.unregistered = [] := unregistered_of_pass done
    have referring : validator.referringBeans config [] = [template, child] := rfl
    rw [accepted, referring, List.flatMap_cons, List.flatMap_singleton,
      factories names template "f" lacksFactory.1, factories names child "f" lacksFactory.2]
    rfl

end Inherited

end Validator

end BeanWiring
