/-
# Classes that are not found

The class that a bean declares is looked up twice in the first pass: for the factory method of the
bean, and for the bean itself.  Only the second check leaves out abstract beans and children, and
neither knows of the other.  So an abstract bean with a static factory method is reported for its
class, and a bean that is neither abstract nor a child is reported for it twice.

The second pass reports classes as well, but those of factory beans.

Main statements:

* `missingClassReports_eq` : what the first pass reports of the class of a bean;
* `missingClasses_of_pass` : what a pass reports of missing classes.
-/
import BeanWiring.Proofs.Validation.Making

namespace BeanWiring

/-- The bean declares a factory method of its own class: one without placeholder, and no factory
bean. -/
def Bean.hasStaticMethod (b : Bean) : Bool :=
  match b.definition.factoryMethod with
  | some method => !hasPlaceholder method && b.definition.factoryBean.isNone
  | none => false

/-- The report that the class of a bean is not found. -/
def missingClass (b : Bean) (className : String) : Diagnostic :=
  (Report.bean b b.startLine (.classNotFound className)).toDiagnostic

/-- The report that the class that a factory method belongs to is not found. -/
def missingFactoryClass (b : Bean) (className : String) : Diagnostic :=
  (Report.bean b b.startLine (.factoryClassNotFound className)).toDiagnostic

namespace Validator

/-- Whether a diagnostic says that a class is not found. -/
def isMissingClass (d : Diagnostic) : Bool := d.code = some "CLASS_NOT_FOUND"

theorem countsMaking_isMissingClass : CountsMaking isMissingClass where
  bean b line f other := by
    cases f <;> first | rfl | cases other
  dangling v b line f dangles := by
    cases dangles <;> rfl
  aliasing a f := by
    cases f <;> rfl

/-- The reports of the first pass that the class of a bean is not found. -/
def missingClassReports (v : Validator) (b : Bean) : List Diagnostic :=
  (v.declaredReports b).filter isMissingClass

/-! ## Declared classes -/

section Declared

variable {v : Validator} {b : Bean} {className : String}

section Lacks

variable (declared : b.className = some className) (lacks : v.LacksType className)
include declared lacks

theorem staticFinding?_of_lacks : v.staticFinding? b
    = if b.hasStaticMethod then some (.factoryClassNotFound className) else none := by
  unfold staticFinding? Bean.hasStaticMethod
  rw [declared]
  cases b.definition.factoryMethod with
  | none => rfl
  | some method =>
    cases b.definition.factoryBean with
    | some factory => simp
    | none => cases placeholder : hasPlaceholder method <;>
        simp [factoryMethodFinding?, lacks.1, lacks.2, placeholder]

theorem classFinding?_of_lacks : v.classFinding? b
    = if !b.isAbstract && !b.isChild then some (.classNotFound className) else none := by
  unfold classFinding?
  rw [declared]
  simp [lacks.1, lacks.2, and_comm]

/-- The class of a bean is reported once for its factory method, and once for the bean. -/
theorem missingClassReports_eq : v.missingClassReports b
    = (if b.hasStaticMethod then [missingFactoryClass b className] else []) ++
        if !b.isAbstract && !b.isChild then [missingClass b className] else [] := by
  rw [missingClassReports, declaredReports, staticFinding?_of_lacks declared lacks,
    classFinding?_of_lacks declared lacks]
  cases b.hasStaticMethod <;> cases !b.isAbstract && !b.isChild <;> rfl

/-- No report of an abstract bean, unless it has a static factory method. -/
theorem missingClassReports_of_isAbstract (abstract : b.isAbstract = true) :
    v.missingClassReports b = [] ↔ b.hasStaticMethod = false := by
  rw [missingClassReports_eq declared lacks, abstract]
  cases b.hasStaticMethod <;> simp

/-- And no two reports of another one, unless it has one as well, and no parent. -/
theorem length_missingClassReports (abstract : b.isAbstract = false) :
    (v.missingClassReports b).length ≤ 1 ↔ b.isChild = true ∨ b.hasStaticMethod = false := by
  rw [missingClassReports_eq declared lacks, abstract]
  cases b.hasStaticMethod <;> cases b.isChild <;> simp

end Lacks

/-- A class that is found, or not looked up, is not reported. -/
theorem missingClassReports_eq_nil
    (fine : ∀ className, b.className = some className → ¬v.LacksType className) :
    v.missingClassReports b = [] := by
  rw [missingClassReports, List.filter_eq_nil_iff]
  intro d there missing
  rcases List.mem_append.1 there with ofMethod | ofClass
  · obtain ⟨f, found, rfl⟩ := Bean.mem_reports.1 ofMethod
    obtain ⟨className, method, declared, -, -, found⟩ := staticFinding?_eq_some_iff.1 found
    rcases factoryMethodFinding?_eq_some_iff.1 found with ⟨lacks, -, rfl⟩ | ⟨-, rfl⟩
    · exact fine className declared lacks
    · cases missing
  · obtain ⟨f, found, rfl⟩ := Bean.mem_reports.1 ofClass
    obtain ⟨className, declared, -, -, lacks, -⟩ := classFinding?_eq_some_iff.1 found
    exact fine className declared lacks

end Declared

/-! ## Classes of factory beans -/

/-- The merged definition of a bean names another bean as its factory, whose class is not found. -/
def LacksFactoryClass (v : Validator) (ctx : Context) (b : Bean) (className : String) : Prop :=
  ∃ factory method target, (merged ctx b).factoryBean = some factory ∧
    (merged ctx b).factoryMethod = some method ∧ hasPlaceholder method = false ∧
    factory ≠ b.name ∧ v.ignores factory = false ∧ ctx.resolve? factory = some target ∧
    (merged ctx target).className = some className ∧ (merged ctx target).isAbstract = false ∧
    v.LacksType className

theorem factoryClassNotFound_iff {v : Validator} {ctx : Context} {b : Bean} {className : String} :
    v.mergedFinding? ctx b = some (.factoryClassNotFound className) ↔
      v.LacksFactoryClass ctx b className := by
  simp only [mergedFinding?_eq_some_iff, factoryFinding?_eq_some_iff,
    factoryMethodFinding?_eq_some_iff, LacksFactoryClass]
  constructor
  · rintro ⟨factory, named, ⟨-, other⟩ | ⟨method, byMethod, ⟨-, other⟩ | ⟨foreign, counts, reason⟩⟩⟩
    · cases other
    · cases other
    · rcases reason with ⟨-, other⟩ | ⟨target, found, ⟨c, class', concrete, ⟨lacks, plain, same⟩ |
        ⟨-, other⟩⟩ | ⟨-, other⟩⟩
      · cases other
      · cases same
        exact ⟨factory, method, target, named, byMethod, plain, foreign, counts, found, class',
          concrete, lacks⟩
      · cases other
      · cases other
  · rintro ⟨factory, method, target, named, byMethod, plain, foreign, counts, found, class',
      concrete, lacks⟩
    exact ⟨factory, named, .inr ⟨method, byMethod, .inr ⟨foreign, counts, .inr ⟨target, found,
      .inl ⟨className, class', concrete, .inl ⟨lacks, plain, rfl⟩⟩⟩⟩⟩⟩

/-- The second pass reports no other classes than those of factory beans. -/
theorem mem_mergedReports_iff {v : Validator} {ctx : Context} {b : Bean} {d : Diagnostic}
    (missing : isMissingClass d = true) :
    d ∈ v.mergedReports ctx b ↔
      ∃ className, v.LacksFactoryClass ctx b className ∧ d = missingFactoryClass b className := by
  rw [mergedReports, Bean.mem_reports]
  constructor
  · rintro ⟨f, found, rfl⟩
    have code : f.code = "CLASS_NOT_FOUND" := Option.some.inj (of_decide_eq_true missing)
    cases f with
    | factoryClassNotFound className =>
      exact ⟨className, factoryClassNotFound_iff.1 found, rfl⟩
    | classNotFound className =>
      simp [mergedFinding?_eq_some_iff, factoryFinding?_eq_some_iff,
        factoryMethodFinding?_eq_some_iff] at found
    | _ => simp [Finding.code] at code
  · rintro ⟨className, lacks, rfl⟩
    exact ⟨_, factoryClassNotFound_iff.2 lacks, rfl⟩

/-! ## Passes -/

/-- **Missing classes.**  Of a bean whose class is not found, the first pass reports the class once
if the bean has a static factory method, and once if it is neither abstract nor a child.  So there
is no report of an abstract bean exactly if it has no static factory method, and there are no two
of another bean exactly if it is a child or has none.  A pass adds these reports, of all beans whose
definitions it checks, and after them only reports of the classes of factory beans. -/
theorem missingClasses_of_pass (v : Validator) :
    (∀ b className, b.className = some className → v.LacksType className →
      v.missingClassReports b
          = (if b.hasStaticMethod then [missingFactoryClass b className] else []) ++
            (if !b.isAbstract && !b.isChild then [missingClass b className] else []) ∧
        (b.isAbstract = true → (v.missingClassReports b = [] ↔ b.hasStaticMethod = false)) ∧
        (b.isAbstract = false → ((v.missingClassReports b).length ≤ 1 ↔
          b.isChild = true ∨ b.hasStaticMethod = false))) ∧
    (∀ b, (∀ className, b.className = some className → ¬v.LacksType className) →
      v.missingClassReports b = []) ∧
    ∀ (config : Context) (set : Option SetView) (run : Run),
      (∃ run', v.pass (fun _ _ => false) config set run = .ok run') ∧
      ∀ (interrupt : Interrupt) (run' : Run), v.pass interrupt config set run = .ok run' →
        ∃ first second,
          run'.diagnostics.toList = run.diagnostics.toList ++ (first ++ second) ∧
          first.filter isMissingClass = (turns set).flatMap (fun _ =>
            (v.declaredBeans config).flatMap v.missingClassReports) ∧
          (checksReferences set = false → second = []) ∧
          (checksReferences set = true →
            MergesById (v.finalContext config set) (Asked (v.finalContext config set) config) →
              ∀ d, isMissingClass d = true → (d ∈ second ↔
                ∃ x className, v.Checks config run'.unregistered x ∧
                  v.LacksFactoryClass (v.finalContext config set) x className ∧
                  d = missingFactoryClass x className)) := by
  refine ⟨fun b className declared lacks => ⟨missingClassReports_eq declared lacks,
    missingClassReports_of_isAbstract declared lacks, length_missingClassReports declared lacks⟩,
    fun b => missingClassReports_eq_nil,
    fun config set run => ⟨pass_completes v config set run, ?_⟩⟩
  intro interrupt run' done
  obtain ⟨first, second, appended, declares, none, refers⟩ :=
    pass_emits_making countsMaking_isMissingClass done
  refine ⟨first, second, appended, ?_, none, fun checks agree d missing => ?_⟩
  · rw [declares, List.filter_flatMap]
    rfl
  · have among : d ∈ second ↔ d ∈ (v.referringBeans config run'.unregistered).flatMap
        (v.mergedReports (v.finalContext config set)) := by
      have filtered := congrArg (d ∈ ·) (refers checks agree)
      simpa [List.mem_filter, missing] using filtered
    rw [among, List.mem_flatMap]
    simp only [mem_referringBeans_iff, mem_mergedReports_iff missing, exists_and_left]

/-! ### A class that is reported twice -/

/-- A bean of an unknown class with a factory method of its own. -/
def unknownBean (name : String) (isAbstract : Bool) (line : Nat) : Bean :=
  .named "beans.xml"
    ⟨name, [], { className := some "Nope", factoryMethod := some "make", isAbstract
                 location := .atLine "beans.xml" line }⟩

/-- A config with two such beans, one of them abstract. -/
def unknownBeans : Context :=
  { name := "beans.xml", kind := .config
    beans := [unknownBean "a" true 1, unknownBean "b" false 2] }

/-- The class of the abstract bean is reported once, and that of the other one twice. -/
theorem missingClasses_of_unknownBeans :
    ∃ run', ({} : Validator).pass (fun _ _ => false) unknownBeans none {} = .ok run' ∧
      ∃ first second, run'.diagnostics.toList = first ++ second ∧
        first.filter isMissingClass = [missingFactoryClass (unknownBean "a" true 1) "Nope",
          missingFactoryClass (unknownBean "b" false 2) "Nope",
          missingClass (unknownBean "b" false 2) "Nope"] ∧
        ¬({} : Validator).missingClassReports (unknownBean "a" true 1) = [] ∧
        ¬(({} : Validator).missingClassReports (unknownBean "b" false 2)).length ≤ 1 := by
  obtain ⟨reports, -, passes⟩ := missingClasses_of_pass {}
  obtain ⟨⟨run', done⟩, all⟩ := passes unknownBeans none {}
  obtain ⟨first, second, appended, exact, -, -⟩ := all _ run' done
  have lacks : ({} : Validator).LacksType "Nope" := ⟨by decide, rfl⟩
  obtain ⟨once, ofAbstract, -⟩ := reports (unknownBean "a" true 1) "Nope" rfl lacks
  obtain ⟨twice, -, atMost⟩ := reports (unknownBean "b" false 2) "Nope" rfl lacks
  refine ⟨run', done, first, second, appended, exact.trans ?_, ?_, ?_⟩
  · have declared : ({} : Validator).declaredBeans unknownBeans
        = [unknownBean "a" true 1, unknownBean "b" false 2] := rfl
    have own : turns none = [.self] := rfl
    rw [own, List.flatMap_singleton, declared, List.flatMap_cons, List.flatMap_singleton, once,
      twice]
    rfl
  · rw [ofAbstract rfl]
    decide
  · rw [atMost rfl]
    decide

end Validator

end BeanWiring
