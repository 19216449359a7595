/-
# What validations report

A validation is made of passes: one within each set, or a single one if there are no sets.  What
it reports beside the problems of documents is what its passes add.  So of a kind of diagnostics it
has exactly those that its passes add, and a property that all reports have holds of everything
that it adds.

Main statements:

* `mem_validate_iff` : which diagnostics of a kind a validation has;
* `mem_validate` : a property of everything that it adds.
-/
import BeanWiring.Proofs.Validation.Passes

namespace BeanWiring.Validator

open Check

open Diagnostic (Kind)

/-- The passes that a validation makes: one within each set, or one on its own. -/
def passes (sets : List SetView) : List (Option SetView) :=
  if sets.isEmpty then [none] else sets.map some

/-- What a pass adds, given what its two parts add. -/
def AddsInPass (v : Validator) (config : Context) (P : Option String → Roll → Diagnostic → Prop)
    (Q : List BeanId → Roll → Diagnostic → Prop) (set : Option SetView) (d : Diagnostic) : Prop :=
  AddsInTurn v config P (set.map SetView.name) { registry := startRegistry config set }
      (passMembers set) d ∨
    checksReferences set = true ∧
      Q (v.finalRoll config set).refused (v.finalRoll config set) d

variable {v : Validator} {interrupt : Interrupt} {config : Context} {run run' : Run}
  {problems ds : List Diagnostic} {sets : List SetView}

section Kinds

variable {kind : Kind} {P : Option String → Roll → Diagnostic → Prop}
  {Q : List BeanId → Roll → Diagnostic → Prop}
  (first : ∀ set, Performs kind (v.declarationTasks set config)
    (·.enlistAll (v.checkedBeans config.beans) config.aliases) (P set))
  (second : ∀ set refused, Performs kind (v.referenceTasks set refused config) id (Q refused))
include first second

theorem addsInPass_of_pass (set : Option SetView)
    (done : v.pass interrupt config set run = .ok run') :
    run.AddsOf kind (v.AddsInPass config P Q set) run' := by
  obtain ⟨final, added⟩ := pass_adds first second done
  rw [final] at added
  exact added

theorem addsInPass_of_setPasses (done : v.setPasses interrupt config run sets = .ok run') :
    run.AddsOf kind (fun d => ∃ set ∈ sets.map some, v.AddsInPass config P Q set d) run' := by
  induction sets generalizing run with
  | nil =>
    cases Except.ok.inj done
    exact (Run.AddsOf.of_eq rfl).congr fun _ _ => by simp
  | cons set rest ih =>
    obtain ⟨between, here, others⟩ := bind_eq_ok.1 done
    have now := addsInPass_of_pass first second (some set) here
    exact (now.trans (ih others)).congr fun _ _ => by simp

/-- Of a kind of diagnostics, a validation has the problems of documents and what its passes
add. -/
theorem mem_validate_iff (done : v.validate interrupt problems config sets = some ds)
    {d : Diagnostic} (hd : kind d) :
    d ∈ ds ↔ d ∈ problems ∨ ∃ set ∈ passes sets, v.AddsInPass config P Q set d := by
  unfold validate at done
  cases outcome : v.run interrupt problems config sets with
  | error run =>
    rw [outcome] at done
    cases done
  | ok run' =>
    rw [outcome] at done
    cases Option.some.inj done
    obtain ⟨start, -, rest⟩ := run_eq_ok.1 outcome
    have adds : Run.AddsOf kind (fun d => ∃ set ∈ passes sets, v.AddsInPass config P Q set d)
        (noteRead { start with diagnostics := problems.toArray }) run' := by
      unfold passes
      split at rest
      · rename_i alone
        have added := addsInPass_of_pass first second none rest
        rw [if_pos alone]
        exact added.congr fun _ _ => by simp
      · rename_i within
        rw [if_neg within]
        exact addsInPass_of_setPasses first second rest
    obtain ⟨added, appended, exact⟩ := adds
    have whole : run'.diagnostics.toList = problems ++ added := appended
    rw [Keyed.mem_distinct, whole, List.mem_append, exact d hd]

end Kinds

/-- A property of all that can be reported holds of all diagnostics of a validation but the
problems of documents. -/
theorem mem_validate {P : Diagnostic → Prop}
    (declares : ∀ b line f, v.Declares b f → P (Report.bean b line f).toDiagnostic)
    (refused : ∀ a error, P (Report.aliasing a (.refused error)).toDiagnostic)
    (refers : ∀ b line f, v.Refers b f ∨ v.Dangles f → P (Report.bean b line f).toDiagnostic)
    (undefined : ∀ a : BeanAlias, v.ignores a.beanName = false →
      P (Report.aliasing a .targetNotFound).toDiagnostic)
    (done : v.validate interrupt problems config sets = some ds) :
    ∀ d ∈ ds, d ∈ problems ∨ P d := by
  have first : ∀ set, Performs (fun d => ¬P d) (v.declarationTasks set config)
      (·.enlistAll (v.checkedBeans config.beans) config.aliases) (fun _ _ => False) :=
    fun set => performs_enlisting_quiet v set (fun a _ error fails => fails (refused a error))
      (fun b _ line f found fails => fails (declares b line f found))
  have second : ∀ set refused, Performs (fun d => ¬P d) (v.referenceTasks set refused config) id
      (fun _ _ => False) :=
    fun set refused => .of_quiet ((closedLookups_quiet _).referenceTasks v set refused
      (fun _ _ => ⟨trivial, fun _ _ => trivial⟩)
      (fun b _ line f found fails => fails (refers b line f found))
      (fun a _ counts fails => fails (undefined a counts)))
  intro d hd
  by_cases holds : P d
  · exact .inr holds
  · rcases (mem_validate_iff first second done holds).1 hd with problem | ⟨set, -, added⟩
    · exact .inl problem
    · rcases added with ⟨_, _, -, never⟩ | ⟨-, never⟩
      · exact never.elim
      · exact never.elim

end BeanWiring.Validator
