/-
# Ignorable names

A name that is declared ignorable is not looked up, wherever it is mentioned: as a parent, as
something to depend on, as a factory, as the target of an alias, or as it is in a value.  A value
may also mention it with the factory mark, and then it is the marked name that has to be ignorable.
If it is not, and stands for nothing, then the name is looked up without its mark, and reported.

Main statements:

* `saysMissing_bean_iff` : which findings say that a bean is missing;
* `mem_validate_missing_iff` : which diagnostics say so of an ignorable name.
-/
import BeanWiring.Proofs.Validation.References
import BeanWiring.Proofs.Validation.Reports

namespace BeanWiring

/-! ## Marked names -/

/-- A name asks for a factory, by another name, exactly if it is that name with the mark in
front. -/
theorem isFactoryReference_iff {marked name : String} :
    isFactoryReference marked = true ∧ stripFactoryMark marked = name ↔ marked = "&" ++ name := by
  have inFront : marked = "&" ++ name ↔ marked.toList = factoryMark :: name.toList := by
    rw [← String.toList_inj, String.toList_append]
    rfl
  rw [isFactoryReference, stripFactoryMark, inFront]
  cases marked.toList with
  | nil => simp [Text.startsWith, Text.stripStart?]
  | cons c rest =>
    by_cases same : factoryMark = c
    · subst same
      simp [Text.startsWith, Text.stripStart?, ← String.toList_inj]
    · have other : c ≠ factoryMark := fun equal => same equal.symm
      simp [Text.startsWith, Text.stripStart?, same, other]

/-! ## Diagnostics -/

/-- The diagnostic says that the bean of a name is not found.  Some codes are also those of beans
that name themselves. -/
inductive Diagnostic.SaysMissing (d : Diagnostic) (name : String) : Prop
  | reference (code : d.code = some "UNDEFINED_REFERENCED_BEAN")
      (subject : d.subject? = some name)
  | dependency (code : d.code = some "UNDEFINED_DEPENDS_ON_BEAN")
      (subject : d.subject? = some name)
  | parent (code : d.code = some "UNDEFINED_PARENT_BEAN") (severity : d.severity = .warning)
      (subject : d.subject? = some name)
  | factory (code : d.code = some "UNDEFINED_FACTORY_BEAN") (severity : d.severity = .error)
      (message : d.message = "Factory bean '" ++ name ++ "' not found")
  | factoryReference (code : d.code = some "UNDEFINED_FACTORY_BEAN")
      (severity : d.severity = .warning)
      (message : d.message = "Referenced factory bean '" ++ name ++ "' not found")
  | target (code : d.code = some "UNDEFINED_ALIAS_TARGET") (bean : d.bean = some name)

/-- The name of which a finding says that no bean has it. -/
def Finding.missing? : Finding → Option String
  | parentNotFound name _ => some name
  | dependsOnNotFound name => some name
  | referenceNotFound name => some name
  | factoryReferenceNotFound factory _ => some factory
  | factoryNotFound name => some name
  | _ => none

/-- The reports about beans that say so are those of such findings. -/
theorem saysMissing_bean_iff {b : Bean} {line : Nat} {f : Finding} {name : String} :
    (Report.bean b line f).toDiagnostic.SaysMissing name ↔ f.missing? = some name := by
  constructor
  · intro tells
    cases tells with
    | reference hasCode subject =>
      rw [subject?_toDiagnostic_bean] at subject
      have code : f.code = "UNDEFINED_REFERENCED_BEAN" := Option.some.inj hasCode
      cases f <;> simp [Finding.code] at code
      exact subject
    | dependency hasCode subject =>
      rw [subject?_toDiagnostic_bean] at subject
      have code : f.code = "UNDEFINED_DEPENDS_ON_BEAN" := Option.some.inj hasCode
      cases f <;> simp [Finding.code] at code
      exact subject
    | parent hasCode isWarning subject =>
      rw [subject?_toDiagnostic_bean] at subject
      have code : f.code = "UNDEFINED_PARENT_BEAN" := Option.some.inj hasCode
      have severity : f.severity = .warning := isWarning
      cases f <;> simp [Finding.code] at code
      case ownParent => cases severity
      case parentNotFound => exact subject
    | factory hasCode isError message =>
      have code : f.code = "UNDEFINED_FACTORY_BEAN" := Option.some.inj hasCode
      have severity : f.severity = .error := isError
      cases f <;> simp [Finding.code] at code
      case factoryReferenceNotFound => cases severity
      case factoryNotFound found =>
        change "Factory bean '" ++ found ++ "' not found" = _ at message
        rw [String.append_left_inj, String.append_right_inj] at message
        exact congrArg some message
      case ownFactory =>
        -- The wording starts with another letter.
        change "Bean name and factory bean name are the same" = _ at message
        have initial := congrArg (fun text : String => text.toList.head?) message
        simp at initial
    | factoryReference hasCode isWarning message =>
      have code : f.code = "UNDEFINED_FACTORY_BEAN" := Option.some.inj hasCode
      have severity : f.severity = .warning := isWarning
      cases f <;> simp [Finding.code] at code
      case factoryNotFound | ownFactory => cases severity
      case factoryReferenceNotFound factory marked =>
        change "Referenced factory bean '" ++ factory ++ "' not found" = _ at message
        rw [String.append_left_inj, String.append_right_inj] at message
        exact congrArg some message
    | target hasCode _ => exact absurd (Option.some.inj hasCode) f.code_ne_aliasTarget
  · intro missing
    cases f <;> cases missing
    · exact .parent rfl rfl rfl
    · exact .dependency rfl rfl
    · exact .reference rfl rfl
    · exact .factoryReference rfl rfl rfl
    · exact .factory rfl rfl rfl

/-- The warning about an alias says so of its target. -/
theorem saysMissing_target_iff {a : BeanAlias} {name : String} :
    (Validator.undefinedTarget a).SaysMissing name ↔ a.beanName = name := by
  constructor
  · intro tells
    cases tells with
    | target _ bean => exact Option.some.inj bean
    | reference code | dependency code | parent code | factory code | factoryReference code =>
      have other := Option.some.inj code
      exact absurd other (by decide)
  · rintro rfl
    exact .target rfl rfl

/-- The codes of diagnostics that say so. -/
def missingCodes : List String :=
  ["UNDEFINED_REFERENCED_BEAN", "UNDEFINED_DEPENDS_ON_BEAN", "UNDEFINED_PARENT_BEAN",
    "UNDEFINED_FACTORY_BEAN", "UNDEFINED_ALIAS_TARGET"]

/-- Diagnostics with other codes are about something else. -/
theorem not_saysMissing_of_code {d : Diagnostic} {code name : String} (hasCode : d.code = some code)
    (other : code ∉ missingCodes) : ¬d.SaysMissing name := by
  intro tells
  refine other ?_
  cases tells with
  | reference isCode | dependency isCode | parent isCode | factory isCode
  | factoryReference isCode | target isCode =>
    cases Option.some.inj (hasCode.symm.trans isCode)
    decide

namespace Validator

open Diagnostic (Kind)

/-! ## Names that count -/

/-- The first part of a pass seeks no beans. -/
theorem Declares.missing?_eq_none {v : Validator} {b : Bean} {f : Finding} (h : v.Declares b f) :
    f.missing? = none := by
  cases h with
  | nameTaken | aliasRefused => rfl
  | definition _ found =>
    cases found with
    | invalid => rfl
    | mismatch found => cases found <;> rfl

/-- Whatever else the second part says is missing was looked up. -/
theorem Refers.not_ignores {v : Validator} {b : Bean} {f : Finding} {name : String}
    (h : v.Refers b f) (missing : f.missing? = some name) : v.ignores name = false := by
  cases h with
  | parentNotFound _ counts | dependsOnNotFound counts | factoryNotFound _ counts =>
    cases missing
    exact counts
  | unfit found => cases found <;> cases missing
  | _ => cases missing

section Ignorable

variable {v : Validator} {name : String} (ignored : v.ignores name = true)

/-- No declaration says of any bean that it is missing. -/
theorem performs_declarations_missing (v : Validator) (set : Option String) (config : Context) :
    Performs (·.SaysMissing name) (v.declarationTasks set config)
      (·.enlistAll (v.checkedBeans config.beans) config.aliases) (fun _ _ => False) := by
  refine performs_enlisting_quiet v set ?_ ?_
  · exact fun a _ error => not_saysMissing_of_code rfl (by decide)
  · intro b _ line f declares tells
    rw [saysMissing_bean_iff, declares.missing?_eq_none] at tells
    cases tells

include ignored

/-- References say so of an ignored name only where it is mentioned with the factory mark. -/
theorem performs_references_missing (set : Option String) (refused : List BeanId)
    (config : Context) :
    Performs (·.SaysMissing name) (v.referenceTasks set refused config) id (fun r d =>
      ∃ x line, v.Checks config refused x ∧ v.Mentions r.registry x line ("&" ++ name) ∧
        v.MissesFactory r.registry ("&" ++ name) ∧ d = undefinedFactory x line ("&" ++ name)) := by
  have counting : v.ignores name ≠ false := by simp [ignored]
  have others : ∀ x, v.Checks config refused x → ∀ line f, v.Refers x f →
      ¬(Report.bean x line f).toDiagnostic.SaysMissing name :=
    fun x _ line f refers tells => counting (refers.not_ignores (saysMissing_bean_iff.1 tells))
  have checking : Performs (·.SaysMissing name) (v.referenceTasks set refused config) id _ :=
    performs_checking v set others
  refine checking.congr (fun _ => rfl) ?_
  intro r d tells
  constructor
  · rintro (⟨x, line, mentioned, checks, mentions, warns⟩ | ⟨a, -, misses, rfl⟩)
    · cases warns with
      | unmarked misses =>
        have found : Finding.missing? (.referenceNotFound mentioned) = some name :=
          saysMissing_bean_iff.1 tells
        cases found
        exact absurd misses.counts counting
      | marked misses =>
        have found : Finding.missing? (.factoryReferenceNotFound _ mentioned) = some name :=
          saysMissing_bean_iff.1 tells
        cases isFactoryReference_iff.1 ⟨misses.marked, Option.some.inj found⟩
        exact ⟨x, line, checks, mentions, misses, rfl⟩
    · cases saysMissing_target_iff.1 tells
      exact absurd misses.counts counting
  · rintro ⟨x, line, checks, mentions, misses, rfl⟩
    exact .inl ⟨x, line, _, checks, mentions, .marked misses⟩

/-- A warning that a validation makes of an ignored name: a bean that it checks mentions the name
with the factory mark, and it stands for nothing, with the mark or without. -/
def WarnsOfMarked (v : Validator) (config : Context) (views : List SetView) (name : String)
    (d : Diagnostic) : Prop :=
  ∃ set ∈ passes views, checksReferences set = true ∧
    ∃ x line, v.Checks config (v.finalRoll config set).refused x ∧
      v.Mentions (v.finalRoll config set).registry x line ("&" ++ name) ∧
      v.MissesFactory (v.finalRoll config set).registry ("&" ++ name) ∧
      d = undefinedFactory x line ("&" ++ name)

omit ignored in
theorem WarnsOfMarked.saysMissing {config : Context} {views : List SetView} {d : Diagnostic}
    (h : v.WarnsOfMarked config views name d) : d.SaysMissing name := by
  obtain ⟨set, -, -, x, line, -, -, -, rfl⟩ := h
  exact saysMissing_bean_iff.2 (congrArg some (isFactoryReference_iff.2 rfl).2)

/-- Exactly these warnings, and problems of documents, say that an ignored name is missing. -/
theorem mem_validate_missing_iff {interrupt : Interrupt} {problems ds : List Diagnostic}
    {config : Context} {views : List SetView}
    (done : v.validate interrupt problems config views = some ds) {d : Diagnostic}
    (tells : d.SaysMissing name) :
    d ∈ ds ↔ d ∈ problems ∨ v.WarnsOfMarked config views name d := by
  rw [mem_validate_iff (fun set => performs_declarations_missing v set config)
    (fun set refused => performs_references_missing ignored set refused config) done tells]
  refine or_congr_right (exists_congr fun set => and_congr_right fun _ => ?_)
  exact ⟨fun added => added.resolve_left fun ⟨_, _, _, never⟩ => never, .inr⟩

end Ignorable

end Validator

end BeanWiring
