/-
# Reports in order

What a step of a validation reports, as a list: of the diagnostics that count, whichever these are,
the step adds exactly those of the list, in this order.  Steps one after the other add one list
after the other, so a pass adds what it adds of each bean, bean by bean, as often as the bean has
its turn.

What a step adds may depend on the merged definitions that are remembered, so a step is described
from the runs of which something is known, and what is known is kept.

Main statements:

* `Emits.bind` : steps one after the other;
* `closedNames_silent`, `closedLookups_silent` : checks whose reports do not count;
* `pass_emits` : what the two parts of a pass add, given what is added of each bean.
-/
import BeanWiring.Proofs.Validation.Skipping
import BeanWiring.Proofs.Validation.Transparency

namespace BeanWiring

/-! ## Runs -/

namespace Run

variable {counts : Diagnostic → Bool} {ds ds' : List Diagnostic} {run run' run'' : Run}

/-- From one run to the other diagnostics are only added, and those that count are `ds`, in this
order. -/
def AddsList (counts : Diagnostic → Bool) (ds : List Diagnostic) (run run' : Run) : Prop :=
  ∃ added, run'.diagnostics.toList = run.diagnostics.toList ++ added ∧ added.filter counts = ds

/-- What leaves the diagnostics as they are adds none that count. -/
theorem AddsList.of_eq (same : run'.diagnostics = run.diagnostics) :
    AddsList counts [] run run' :=
  ⟨[], by rw [same, List.append_nil], rfl⟩

/-- What two turns add is added one after the other. -/
theorem AddsList.trans (first : AddsList counts ds run run')
    (second : AddsList counts ds' run' run'') : AddsList counts (ds ++ ds') run run'' := by
  obtain ⟨before, appended, rfl⟩ := first
  obtain ⟨after, appended', rfl⟩ := second
  refine ⟨before ++ after, ?_, List.filter_append ..⟩
  rw [appended', appended, List.append_assoc]

/-- What has been added is one list only. -/
theorem AddsList.filter_eq (h : run.AddsList counts ds run') {added : List Diagnostic}
    (appended : run'.diagnostics.toList = run.diagnostics.toList ++ added) :
    added.filter counts = ds := by
  obtain ⟨added', appended', exact⟩ := h
  rw [List.append_cancel_left (appended.symm.trans appended'), exact]

end Run

/-! ## Steps -/

namespace Check

open Validator

/-- From the runs that satisfy `I` the step leads to such runs, and of the diagnostics that count
it adds exactly `ds`, in this order. -/
def Emits (I : Run → Prop) (counts : Diagnostic → Bool) {α : Type} (c : Check α)
    (ds : List Diagnostic) : Prop :=
  ∀ run, I run → I (c.run run).2 ∧ run.AddsList counts ds (c.run run).2

/-- From the runs that satisfy `I` the step leads to such runs, and adds nothing that counts. -/
abbrev Silent (I : Run → Prop) (counts : Diagnostic → Bool) {α : Type} (c : Check α) : Prop :=
  Emits I counts c []

variable {I : Run → Prop} {counts : Diagnostic → Bool} {α β : Type} {c : Check α}
  {g : α → Check β} {ds ds' : List Diagnostic}

theorem Emits.pure (a : α) : Silent I counts (Pure.pure a : Check α) :=
  fun _ known => ⟨known, .of_eq rfl⟩

/-- Steps one after the other add one list after the other. -/
theorem Emits.bind (first : Emits I counts c ds) (second : ∀ a, Emits I counts (g a) ds') :
    Emits I counts (c >>= g) (ds ++ ds') := by
  intro run known
  obtain ⟨between, added⟩ := first run known
  obtain ⟨after, added'⟩ := second (c.run run).1 (c.run run).2 between
  exact ⟨after, added.trans added'⟩

/-- A silent step in front does not change what is emitted. -/
theorem Silent.bind (first : Silent I counts c) (second : ∀ a, Emits I counts (g a) ds) :
    Emits I counts (c >>= g) ds :=
  Emits.bind first second

/-- A step that may be skipped. -/
theorem Emits.unless {c : Check Unit} {skipped : Bool} (h : Emits I counts c ds) :
    Emits I counts (if skipped then Pure.pure () else c) (if skipped then [] else ds) := by
  cases skipped with
  | true => exact Emits.pure ()
  | false => exact h

section About

variable (about : Run.IsAboutMemory I)
include about

/-- A report is added if it counts. -/
theorem emits_reportAt (b : Bean) (line : Nat) (finding : Finding) :
    Emits I counts (reportAt b line finding)
      ([(Report.bean b line finding).toDiagnostic].filter counts) :=
  fun run known => ⟨about run _ rfl rfl known, _, Array.toList_push, rfl⟩

/-- A question to the types is silent. -/
theorem emits_ask (question : TypeQuestion) : Silent I counts (ask question) :=
  fun run known => ⟨about run _ rfl rfl known, .of_eq rfl⟩

/-- A report on an alias that does not count is silent. -/
theorem silent_reportAlias {a : BeanAlias} {finding : AliasFinding}
    (other : counts (Report.aliasing a finding).toDiagnostic = false) :
    Silent I counts (reportAlias a finding) :=
  fun run known => ⟨about run _ rfl rfl known, _, Array.toList_push,
    List.filter_eq_nil_iff.2 fun d there => by
      rw [List.mem_singleton.1 there, other]
      exact Bool.false_ne_true⟩

/-- What is made of reports that do not count adds nothing that counts. -/
theorem closed_silent : Closed (fun r => counts r.toDiagnostic = false) (Silent I counts) where
  pure := Emits.pure
  bind := Silent.bind
  ask := emits_ask about
  reportAt b line finding other := by
    have reports : Emits I counts (Check.reportAt b line finding) _ :=
      emits_reportAt about b line finding
    rwa [List.filter_cons_of_neg (by simp [other]), List.filter_nil] at reports

end About

/-! ### First pass -/

/-- Registering names adds nothing that counts if refusals do not. -/
theorem closedNames_silent :
    ClosedNames (fun r => counts r.toDiagnostic = false) (Silent Run.IsFresh counts) where
  toClosed := closed_silent Run.isAboutMemory_isFresh
  propose answer refuse rest refused after := by
    intro run fresh
    cases reply : answer run.registry with
    | ok registry =>
      rw [run_propose_of_ok reply]
      exact after { run with registry } fresh
    | error error =>
      rw [run_propose_of_error reply]
      exact (Silent.bind (refused error) fun _ => after) run fresh
  noteRefused _ := fun _ fresh => ⟨fresh, .of_eq rfl⟩
  reportRefused _ _ other := silent_reportAlias Run.isAboutMemory_isFresh other

/-! ### Second pass -/

section Faithful

variable {ctx : Context} {P : Bean → Prop} {g : Context → Check β}
  {g' : Definition (Value Declaration) → Check β}

/-- A step that looks at the registry sees the context. -/
theorem Emits.context_bind (h : Emits (Run.IsFaithful ctx P) counts (g ctx) ds) :
    Emits (Run.IsFaithful ctx P) counts (context >>= g) ds := by
  intro run known
  have seen : (context >>= g).run run = (g ctx).run run := by
    rw [← known.context]
    rfl
  rw [seen]
  exact h run known

variable (agree : MergesById ctx P) {b : Bean} (asked : P b)
include agree asked

/-- Where beans of one identity have one merged definition, a step gets that of the bean. -/
theorem run_mergedDefinition {run : Run} (known : run.IsFaithful ctx P) :
    ((mergedDefinition b).run run).1 = merged ctx b ∧
      ((mergedDefinition b).run run).2.IsFaithful ctx P := by
  obtain ⟨same, after⟩ := forgets_mergedDefinition agree asked run known
  have anew : ((mergedDefinition b).run run.forgetful).1 = merged ctx b := by
    rw [← known.context]
    rfl
  exact ⟨(congrArg Prod.fst same).symm.trans anew, after⟩

/-- A step that needs the merged definition is handed it, whether it was remembered or not. -/
theorem Emits.merged_bind (h : Emits (Run.IsFaithful ctx P) counts (g' (merged ctx b)) ds) :
    Emits (Run.IsFaithful ctx P) counts (mergedDefinition b >>= g') ds := by
  intro run known
  obtain ⟨answer, after⟩ := run_mergedDefinition agree asked known
  have steps : (mergedDefinition b >>= g').run run
      = (g' ((mergedDefinition b).run run).1).run ((mergedDefinition b).run run).2 := rfl
  rw [steps, answer]
  exact h _ after

end Faithful

/-- Look-ups and merged definitions add nothing that counts if what is found does not. -/
theorem closedLookups_silent {ctx : Context} {P : Bean → Prop} (agree : MergesById ctx P)
    (targets : ∀ b ∈ ctx.allBeans, P b) :
    ClosedLookups (fun r => counts r.toDiagnostic = false) (· = ctx) P
      (Silent (Run.IsFaithful ctx P) counts) where
  toClosed := closed_silent Run.isAboutMemory_isFaithful
  reportAlias _ := silent_reportAlias Run.isAboutMemory_isFaithful
  context h := .context_bind (h ctx rfl)
  merged asked := fun _ known =>
    ⟨(run_mergedDefinition agree asked known).2, .of_eq rfl⟩
  found := by
    rintro _ name b rfl found
    exact targets b (Context.resolve?_mem found)

end Check

/-! ## Tasks -/

/-- Tasks that, once all of them are done, lead from runs that satisfy `I` to such runs, and have
added exactly `ds` of what counts, in this order. -/
def EmitsInTurn (I : Run → Prop) (counts : Diagnostic → Bool) (tasks : List (Check Unit))
    (ds : List Diagnostic) : Prop :=
  ∀ (interrupt : Interrupt) (run run' : Run), I run → perform interrupt run tasks = .ok run' →
    I run' ∧ run.AddsList counts ds run'

namespace EmitsInTurn

variable {I : Run → Prop} {counts : Diagnostic → Bool} {ds ds' : List Diagnostic}
  {first second : List (Check Unit)}

theorem nil : EmitsInTurn I counts [] [] := by
  intro interrupt run run' known done
  cases Except.ok.inj done
  exact ⟨known, .of_eq rfl⟩

/-- A single task emits in turn what it emits. -/
theorem single (about : Run.IsAboutMemory I) {task : Check Unit} (h : task.Emits I counts ds) :
    EmitsInTurn I counts [task] ds := by
  intro interrupt run run' known done
  obtain rfl := eq_of_perform_single done
  exact h { run with polls := run.polls + 1 } (about run _ rfl rfl known)

/-- Tasks in a row emit in a row. -/
theorem append (h : EmitsInTurn I counts first ds) (h' : EmitsInTurn I counts second ds') :
    EmitsInTurn I counts (first ++ second) (ds ++ ds') := by
  intro interrupt run run'' known done
  rw [perform_append, bind_eq_ok] at done
  obtain ⟨run', between, done⟩ := done
  obtain ⟨known', added⟩ := h interrupt run run' known between
  obtain ⟨known'', added'⟩ := h' interrupt run' run'' known' done
  exact ⟨known'', added.trans added'⟩

/-- Tasks for the entries of a list add what is added for each of the entries. -/
theorem flatMap {α : Type} {tasks : α → List (Check Unit)} {ds : α → List Diagnostic}
    (xs : List α) (h : ∀ a ∈ xs, EmitsInTurn I counts (tasks a) (ds a)) :
    EmitsInTurn I counts (xs.flatMap tasks) (xs.flatMap ds) := by
  induction xs with
  | nil => exact nil
  | cons x xs ih =>
    exact (h x List.mem_cons_self).append (ih fun a ha => h a (List.mem_cons_of_mem x ha))

/-- Tasks of a list emit in turn what each of them emits, in the order of the list. -/
theorem map (about : Run.IsAboutMemory I) {α : Type} {task : α → Check Unit}
    {ds : α → List Diagnostic} (xs : List α) (h : ∀ a ∈ xs, (task a).Emits I counts (ds a)) :
    EmitsInTurn I counts (xs.map task) (xs.flatMap ds) := by
  rw [List.map_eq_flatMap]
  exact flatMap xs fun a ha => single about (h a ha)

/-- Tasks each of which adds nothing that counts. -/
theorem map_silent (about : Run.IsAboutMemory I) {α : Type} {task : α → Check Unit}
    (xs : List α) (h : ∀ a ∈ xs, (task a).Silent I counts) :
    EmitsInTurn I counts (xs.map task) [] := by
  have none : xs.flatMap (fun _ => ([] : List Diagnostic)) = [] :=
    List.flatMap_eq_nil_iff.2 fun _ _ => rfl
  have each := map about xs h
  rwa [none] at each

end EmitsInTurn

/-! ## Passes -/

namespace Validator

variable {v : Validator} {config : Context} {interrupt : Interrupt} {counts : Diagnostic → Bool}
  {ds : List Diagnostic}

/-- How often a config has its turn in a pass: within a set once for each time that it is a member,
and otherwise once. -/
def turns (set : Option SetView) : List SetMember := (passMembers set).filter SetMember.isSelf

section First

variable (first : ∀ set, EmitsInTurn Run.IsFresh counts (v.declarationTasks set config) ds)
include first

/-- The first pass of a config emits what its tasks emit. -/
theorem declarationPass_emits {set : Option String} {run run' : Run} (fresh : run.IsFresh)
    (done : v.declarationPass interrupt set config run = .ok run') :
    run'.IsFresh ∧ run.AddsList counts ds run' := by
  obtain ⟨declared, tasks, finish⟩ := bind_eq_ok.1 done
  cases Except.ok.inj finish
  exact first set interrupt run declared fresh tasks

/-- The passes over the members of a set emit what the config's own pass emits, each time that it
has its turn. -/
theorem memberPasses_emits {set : String} {members : List SetMember} {met met' : Bool}
    {run run' : Run} (fresh : run.IsFresh)
    (done : v.memberPasses interrupt set config met run members = .ok (met', run')) :
    run'.IsFresh ∧
      run.AddsList counts ((members.filter SetMember.isSelf).flatMap fun _ => ds) run' := by
  induction members generalizing met run with
  | nil =>
    cases Except.ok.inj done
    exact ⟨fresh, .of_eq rfl⟩
  | cons member rest ih =>
    cases member with
    | self =>
      obtain ⟨declared, here, others⟩ := bind_eq_ok.1 done
      have noted : (noteRead run).IsFresh := fresh
      obtain ⟨between, added⟩ := declarationPass_emits first noted here
      obtain ⟨after, added'⟩ := ih between others
      exact ⟨after, Run.AddsList.trans added added'⟩
    | other member =>
      exact @ih met { noteRead run with registry := run.registry.registerAll member } fresh done

/-- After the members of a set, the config has had its turn: as one of them, or at the end. -/
theorem setDeclared_emits {set : SetView} {started members declared : Run} {met : Bool}
    (fresh : started.IsFresh)
    (enlist : v.memberPasses interrupt set.name config false started set.members
      = .ok (met, members))
    (last : (if met then .ok members else
      v.declarationPass interrupt (some set.name) config members) = .ok declared) :
    declared.IsFresh ∧
      started.AddsList counts ((turns (some set)).flatMap fun _ => ds) declared := by
  have unused : "UNDEFINED_REFERENCED_BEAN" ∉ declarationCodes := by decide
  obtain ⟨between, added⟩ := memberPasses_emits first fresh enlist
  have flag : met = set.members.any SetMember.isSelf :=
    (congrArg Prod.fst (memberPasses_ok unused enlist).1).trans
      ((Roll.fst_enlistMembers ..).trans (Bool.false_or _))
  rw [turns, passMembers, withConfig, ← flag]
  cases met with
  | true =>
    cases Except.ok.inj last
    exact ⟨between, added⟩
  | false =>
    obtain ⟨after, added'⟩ := declarationPass_emits first between last
    refine ⟨after, ?_⟩
    rw [if_neg Bool.false_ne_true, List.filter_append, List.flatMap_append]
    have once : ([.self].filter SetMember.isSelf).flatMap (fun _ => ds) = ds :=
      List.flatMap_singleton _ _
    rw [once]
    exact added.trans added'

/-- The first part of a pass adds what the declarations of the config add, each time that the
config has its turn.  It ends with nothing remembered and everything enlisted, and is followed by
the second part unless references are left unchecked. -/
theorem pass_emits {set : Option SetView} {run run' : Run}
    (done : v.pass interrupt config set run = .ok run') :
    ∃ declared, declared.IsFresh ∧ declared.roll = v.finalRoll config set ∧
      run.AddsList counts ((turns set).flatMap fun _ => ds) declared ∧
      if checksReferences set then
        v.referencePass interrupt (set.map SetView.name) config declared = .ok run'
      else
        declared = run' := by
  have unused : "UNDEFINED_REFERENCED_BEAN" ∉ declarationCodes := by decide
  cases set with
  | none =>
    obtain ⟨declared, declares, references⟩ := bind_eq_ok.1 done
    have start (registry : Registry) : Run.IsFresh (startPass registry run) := rfl
    obtain ⟨fresh, added⟩ := declarationPass_emits first (start _) declares
    have once : (turns none).flatMap (fun _ => ds) = ds := List.flatMap_singleton _ _
    rw [once]
    exact ⟨declared, fresh, (declarationPass_ok unused declares).1, added, references⟩
  | some set =>
    obtain ⟨started, met, members, declared, start, enlist, last, done⟩ :=
      setPass_ok_iff.1 done
    have asking : EmitsInTurn (fun _ => True) counts [pure ()] [] :=
      EmitsInTurn.single (fun _ _ _ _ _ => trivial) (Check.Emits.pure ())
    obtain ⟨-, asked⟩ := asking interrupt run started trivial start
    obtain ⟨fresh, added⟩ := setDeclared_emits first
      (show Run.IsFresh (startPass _ (noteRead started)) from rfl) enlist last
    have final := (lastPass_ok unused (memberPasses_ok unused enlist).1 last).1
    exact ⟨declared, fresh, final, asked.trans added, referencesOf_iff.1 done⟩

end First

end Validator

end BeanWiring
