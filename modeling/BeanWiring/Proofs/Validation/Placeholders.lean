/-
# Names with placeholders

A name with a placeholder is completed outside the model, so nothing is known of what it stands
for.  A validation looks no such name up, and so it has no diagnostic which says that one is
missing or unfit, whatever beans and classes there are.

Main statements:

* `Report.spares_bean` : a report spares placeholders if the name that was sought does;
* `spares_of_mem_validate` : so all that a validation adds to the problems of documents does.
-/
import BeanWiring.Proofs.Validation.Reports

namespace BeanWiring

/-! ## Diagnostics -/

namespace Diagnostic

/-- The codes of diagnostics about a name that is missing or unfit. -/
def soughtCodes : List String :=
  ["CLASS_NOT_FOUND", "NO_SETTER", "NO_GETTER", "UNDEFINED_INIT_METHOD",
    "UNDEFINED_DESTROY_METHOD", "UNDEFINED_REFERENCED_BEAN", "INVALID_REFERENCED_BEAN",
    "UNDEFINED_DEPENDS_ON_BEAN", "INVALID_DEPENDS_ON_BEAN", "INVALID_FACTORY_BEAN"]

/-- The codes of such warnings that are also those of errors about a bean that names itself. -/
def sharedCodes : List String := ["UNDEFINED_PARENT_BEAN", "UNDEFINED_FACTORY_BEAN"]

/-- A diagnostic of this severity and code says that what it is about is missing or unfit. -/
def TellsOfSought (severity : Severity) (code : String) : Prop :=
  code ∈ soughtCodes ∨ severity = .warning ∧ code ∈ sharedCodes

/-- The diagnostic does not say of a name with a placeholder that it is missing or unfit. -/
structure SparesPlaceholders (d : Diagnostic) : Prop where
  subject : ∀ code, d.code = some code → TellsOfSought d.severity code →
    ∀ name, (subjectKey, name) ∈ d.details → hasPlaceholder name = false
  /-- What is missing if an alias leads nowhere is not the alias, which is the subject. -/
  target : d.code = some "UNDEFINED_ALIAS_TARGET" → d.severity = .warning →
    ∀ name, d.bean = some name → hasPlaceholder name = false

end Diagnostic

open Diagnostic

/-- Diagnostics with other codes are about something else. -/
theorem Diagnostic.SparesPlaceholders.of_code {d : Diagnostic} {code : String}
    (isCode : d.code = some code) (notSought : code ∉ soughtCodes) (notShared : code ∉ sharedCodes)
    (notTarget : code ≠ "UNDEFINED_ALIAS_TARGET") : d.SparesPlaceholders where
  subject := by
    intro code' isCode' tells
    cases Option.some.inj (isCode.symm.trans isCode')
    rcases tells with sought | ⟨-, shared⟩
    · exact absurd sought notSought
    · exact absurd shared notShared
  target := by
    intro isTarget
    exact absurd (Option.some.inj (isCode.symm.trans isTarget)) notTarget

/-- A finding that tells of something sought is about that. -/
theorem Finding.sought?_eq_subject? {f : Finding} (tells : TellsOfSought f.severity f.code) :
    f.sought? = f.subject? := by
  cases f with
  | nameTaken | aliasRefused | invalidDefinition | noConstructor | ownParent
  | factoryWithoutMethod | ownFactory =>
    simp [TellsOfSought, Finding.severity, Finding.code, soughtCodes, sharedCodes] at tells
  | _ => rfl

namespace Report

/-- A report about a bean spares placeholders if the name that was sought holds none. -/
theorem spares_bean (b : Bean) (line : Nat) {f : Finding} (plain : IsPlain f.sought?) :
    (Report.bean b line f).toDiagnostic.SparesPlaceholders where
  subject := by
    intro code isCode tells name listed
    cases Option.some.inj isCode
    have subject : f.subject? = some name := by
      simpa [toDiagnostic, beanDiagnostic] using listed
    rw [Finding.sought?_eq_subject? tells, subject] at plain
    exact plain
  target := by
    intro isCode
    exact absurd (Option.some.inj isCode) f.code_ne_aliasTarget

theorem spares_targetNotFound {a : BeanAlias} (plain : IsPlain (some a.beanName)) :
    (Report.aliasing a .targetNotFound).toDiagnostic.SparesPlaceholders where
  subject := by
    intro code isCode tells
    cases Option.some.inj isCode
    simp [TellsOfSought, soughtCodes, sharedCodes] at tells
  target := by
    intro _ _ name isBean
    cases Option.some.inj isBean
    exact plain

theorem spares_refused (a : BeanAlias) (error : RegistryError) :
    (Report.aliasing a (.refused error)).toDiagnostic.SparesPlaceholders :=
  .of_code rfl (by decide) (by decide) (by decide)

end Report

/-! ## Validations -/

namespace Validator

/-- What a validation adds to the problems of documents spares placeholders. -/
theorem spares_of_mem_validate {v : Validator} {interrupt : Interrupt}
    {problems ds : List Diagnostic} {config : Context} {sets : List SetView}
    (done : v.validate interrupt problems config sets = some ds) :
    ∀ d ∈ ds, d ∈ problems ∨ d.SparesPlaceholders :=
  mem_validate (fun b line _ declares => Report.spares_bean b line declares.plain)
    (fun a error => Report.spares_refused a error)
    (fun b line _ found => Report.spares_bean b line (found.elim Refers.plain Dangles.plain))
    (fun _ counts => Report.spares_targetNotFound (isPlain_of_not_ignores counts)) done

end Validator

end BeanWiring
