/-
# Passes one after the other

The passes of a validation share one run, but a pass starts with a registry of its own and
forgets which beans were refused and which definitions were merged before.  So it adds to the
diagnostics what it would add to those of any other run, that of a validation within its set alone
among them.

To see this, two runs are followed side by side.  They may have different diagnostics so far, and
may have been asked whether they are cancelled at different times.

Main statements:

* `closedNames_parallel`, `closedLookups_parallel` : steps do the same in both runs;
* `inStep_setPass` : so does a pass, whatever the runs have done before;
* `validate_eq_some` : the diagnostics of a validation, set by set.
-/
import BeanWiring.Proofs.Validation.Passes

namespace BeanWiring

/-! ## Runs side by side -/

namespace Run

/-- Two runs that know the same in their current passes. -/
structure SamePass (run run' : Run) : Prop where
  registry : run'.registry = run.registry
  unregistered : run'.unregistered = run.unregistered
  cache : run'.cache = run.cache
  remembers : run'.remembers = run.remembers

/-- Two runs have come from one state to the next side by side: they know the same in their
current passes, and they have added the same diagnostics. -/
structure InStep (run run' next next' : Run) : Prop extends SamePass next next' where
  stillRemembers : next.remembers = run.remembers
  diagnostics : ∃ added, next.diagnostics.toList = run.diagnostics.toList ++ added ∧
    next'.diagnostics.toList = run'.diagnostics.toList ++ added

variable {run run' mid mid' next next' : Run}

theorem InStep.trans (h : InStep run run' mid mid') (h' : InStep mid mid' next next') :
    InStep run run' next next' where
  toSamePass := h'.toSamePass
  stillRemembers := h'.stillRemembers.trans h.stillRemembers
  diagnostics := by
    obtain ⟨added, eq, eq'⟩ := h.diagnostics
    obtain ⟨more, more_eq, more_eq'⟩ := h'.diagnostics
    exact ⟨added ++ more, by rw [more_eq, eq, List.append_assoc],
      by rw [more_eq', eq', List.append_assoc]⟩

/-- It does not matter what else two runs start with. -/
theorem InStep.from_eq (h : InStep mid mid' next next') (remembers : mid.remembers = run.remembers)
    (same : mid.diagnostics = run.diagnostics) (same' : mid'.diagnostics = run'.diagnostics) :
    InStep run run' next next' where
  toSamePass := h.toSamePass
  stillRemembers := h.stillRemembers.trans remembers
  diagnostics := by
    rw [← same, ← same']
    exact h.diagnostics

/-- Nothing was added. -/
theorem SamePass.inStep (same : SamePass next next') (remembers : next.remembers = run.remembers)
    (none : next.diagnostics = run.diagnostics) (none' : next'.diagnostics = run'.diagnostics) :
    InStep run run' next next' :=
  ⟨same, remembers, [], by rw [none, List.append_nil], by rw [none', List.append_nil]⟩

/-- One diagnostic was added. -/
theorem SamePass.inStep_push (same : SamePass next next')
    (remembers : next.remembers = run.remembers) {d : Diagnostic}
    (one : next.diagnostics = run.diagnostics.push d)
    (one' : next'.diagnostics = run'.diagnostics.push d) : InStep run run' next next' :=
  ⟨same, remembers, [d], by rw [one, Array.toList_push], by rw [one', Array.toList_push]⟩

end Run

/-! ## Steps -/

namespace Check

open Validator Run

/-- A step gives the same answer in both runs, and takes them on side by side. -/
def Parallel {α : Type} (c : Check α) : Prop :=
  ∀ run run' : Run, SamePass run run' →
    (c.run run').1 = (c.run run).1 ∧ InStep run run' (c.run run).2 (c.run run').2

theorem Parallel.pure {α : Type} (a : α) : Parallel (Pure.pure a : Check α) :=
  fun _ _ same => ⟨rfl, same.inStep rfl rfl rfl⟩

theorem Parallel.bind {α β : Type} {c : Check α} {g : α → Check β} (first : Parallel c)
    (rest : ∀ a, Parallel (g a)) : Parallel (c >>= g) := by
  intro run run' same
  obtain ⟨answer, step⟩ := first run run' same
  obtain ⟨answer', step'⟩ := rest (c.run run).1 _ _ step.toSamePass
  have second : (c >>= g).run run' = (g (c.run run').1).run (c.run run').2 := rfl
  rw [second, answer]
  exact ⟨answer', step.trans step'⟩

theorem parallel_reportAlias (a : BeanAlias) (finding : AliasFinding) :
    Parallel (reportAlias a finding) :=
  fun _ _ ⟨registry, unregistered, cache, remembers⟩ =>
    ⟨rfl, SamePass.inStep_push ⟨registry, unregistered, cache, remembers⟩ rfl rfl rfl⟩

/-- Reports and questions do not depend on what was reported before. -/
theorem closed_parallel : Closed (fun _ => True) Parallel where
  pure := .pure
  bind := .bind
  ask _ := fun _ _ ⟨registry, unregistered, cache, remembers⟩ =>
    ⟨rfl, SamePass.inStep ⟨registry, unregistered, cache, remembers⟩ rfl rfl rfl⟩
  reportAt _ _ _ _ := fun _ _ ⟨registry, unregistered, cache, remembers⟩ =>
    ⟨rfl, SamePass.inStep_push ⟨registry, unregistered, cache, remembers⟩ rfl rfl rfl⟩

/-- One registry accepts what the other accepts. -/
theorem parallel_propose (answer : Registry → Except RegistryError Registry)
    {refuse : RegistryError → Check Unit} {rest : Check Unit}
    (refused : ∀ error, Parallel (refuse error)) (after : Parallel rest) :
    Parallel (propose answer refuse rest) := by
  intro run run' same
  cases reply : answer run.registry with
  | ok registry =>
    have reply' : answer run'.registry = .ok registry := same.registry ▸ reply
    rw [run_propose_of_ok reply, run_propose_of_ok reply']
    obtain ⟨done, step⟩ := after { run with registry } { run' with registry }
      ⟨rfl, same.unregistered, same.cache, same.remembers⟩
    exact ⟨done, step.from_eq rfl rfl rfl⟩
  | error error =>
    have reply' : answer run'.registry = .error error := same.registry ▸ reply
    rw [run_propose_of_error reply, run_propose_of_error reply']
    exact (refused error).bind (fun _ => after) run run' same

/-- The steps of the first pass. -/
theorem closedNames_parallel : ClosedNames (fun _ => True) Parallel where
  toClosed := closed_parallel
  propose := parallel_propose
  noteRefused b := fun _ _ ⟨registry, unregistered, cache, remembers⟩ =>
    ⟨rfl, SamePass.inStep ⟨registry, congrArg (b.id :: ·) unregistered, cache, remembers⟩
      rfl rfl rfl⟩
  reportRefused a _ _ := parallel_reportAlias a _

/-- The same definition is merged in both runs, and remembered in both or in none. -/
theorem parallel_mergedDefinition (b : Bean) : Parallel (mergedDefinition b) := by
  intro run run' same
  have merges : ∀ run : Run, (mergedDefinition b).run run
      = ((run.cache.merged run.registry.toContext b).1,
          { run with cache := if run.remembers then
              (run.cache.merged run.registry.toContext b).2 else run.cache }) := fun _ => rfl
  rw [merges, merges, same.cache, same.registry, same.remembers]
  exact ⟨rfl, SamePass.inStep ⟨rfl, same.unregistered, rfl, rfl⟩ rfl rfl rfl⟩

/-- The steps of the second pass. -/
theorem closedLookups_parallel :
    ClosedLookups (fun _ => True) (fun _ => True) (fun _ => True) Parallel where
  toClosed := closed_parallel
  reportAlias a _ := parallel_reportAlias a _
  context {_ g} rest := by
    intro run run' same
    have sees : ∀ run : Run, (Check.context >>= g).run run
        = (g run.registry.toContext).run run := fun _ => rfl
    rw [sees, sees, same.registry]
    exact rest run.registry.toContext trivial run run' same
  merged _ := parallel_mergedDefinition _
  found _ _ := trivial

end Check

/-! ## Passes -/

namespace Validator

open Check Run

variable {v : Validator} {interrupt interrupt' : Interrupt} {config : Context}
  {run run' next next' : Run}

theorem inStep_perform {tasks : List (Check Unit)} (parallel : ∀ task ∈ tasks, Parallel task)
    (same : SamePass run run') (done : perform interrupt run tasks = .ok next)
    (done' : perform interrupt' run' tasks = .ok next') : InStep run run' next next' := by
  induction tasks generalizing run run' with
  | nil =>
    cases Except.ok.inj done
    cases Except.ok.inj done'
    exact same.inStep rfl rfl rfl
  | cons task tasks ih =>
    rw [perform] at done done'
    split at done
    · cases done
    · split at done'
      · cases done'
      · -- How often a run was asked whether it is cancelled is not compared.
        have asked : SamePass { run with polls := run.polls + 1 }
            { run' with polls := run'.polls + 1 } :=
          ⟨same.registry, same.unregistered, same.cache, same.remembers⟩
        have first := (parallel task List.mem_cons_self _ _ asked).2
        have others := ih (fun t ht => parallel t (List.mem_cons_of_mem task ht))
          first.toSamePass done done'
        exact (first.trans others).from_eq rfl rfl rfl

theorem inStep_declarationPass {set : Option String} (same : SamePass run run')
    (done : v.declarationPass interrupt set config run = .ok next)
    (done' : v.declarationPass interrupt' set config run' = .ok next') :
    InStep run run' next next' := by
  obtain ⟨declared, tasks, finish⟩ := bind_eq_ok.1 done
  obtain ⟨declared', tasks', finish'⟩ := bind_eq_ok.1 done'
  cases Except.ok.inj finish
  cases Except.ok.inj finish'
  have step := inStep_perform (closedNames_parallel.declarationTasks v set
    (fun _ _ _ _ _ => trivial) fun _ _ _ => trivial) same tasks tasks'
  have registered : SamePass (registerComponents config declared)
      (registerComponents config declared') :=
    ⟨congrArg (config.components.foldl Registry.registerComponent) step.registry,
      step.unregistered, step.cache, step.remembers⟩
  exact step.trans (registered.inStep rfl rfl rfl)

theorem inStep_referencePass {set : Option String} (same : SamePass run run')
    (done : v.referencePass interrupt set config run = .ok next)
    (done' : v.referencePass interrupt' set config run' = .ok next') :
    InStep run run' next next' := by
  rw [referencePass, same.unregistered] at done'
  exact inStep_perform (closedLookups_parallel.referenceTasks v set run.unregistered
    (fun _ _ => ⟨trivial, fun _ _ => trivial⟩) (fun _ _ _ _ _ => trivial) fun _ _ _ => trivial)
    same done done'

theorem inStep_memberPasses {set : String} {members : List SetMember} {met last last' : Bool}
    (same : SamePass run run')
    (done : v.memberPasses interrupt set config met run members = .ok (last, next))
    (done' : v.memberPasses interrupt' set config met run' members = .ok (last', next')) :
    last' = last ∧ InStep run run' next next' := by
  induction members generalizing met run run' with
  | nil =>
    cases Except.ok.inj done
    cases Except.ok.inj done'
    exact ⟨rfl, same.inStep rfl rfl rfl⟩
  | cons member rest ih =>
    cases member with
    | self =>
      obtain ⟨declared, here, others⟩ := bind_eq_ok.1 done
      obtain ⟨declared', here', others'⟩ := bind_eq_ok.1 done'
      have noted : SamePass (noteRead run) (noteRead run') :=
        ⟨same.registry, same.unregistered, same.cache, same.remembers⟩
      have first := inStep_declarationPass noted here here'
      obtain ⟨flag, step⟩ := ih first.toSamePass others others'
      exact ⟨flag, (first.trans step).from_eq rfl rfl rfl⟩
    | other member =>
      have registered : SamePass
          { noteRead run with registry := run.registry.registerAll member }
          { noteRead run' with registry := run'.registry.registerAll member } :=
        ⟨congrArg (·.registerAll member) same.registry, same.unregistered, same.cache,
          same.remembers⟩
      obtain ⟨flag, step⟩ := ih registered done done'
      exact ⟨flag, step.from_eq rfl rfl rfl⟩

/-- Asking whether a run is cancelled only counts the question. -/
theorem eq_of_perform_pure {started : Run} (done : perform interrupt run [pure ()] = .ok started) :
    started = { run with polls := run.polls + 1 } :=
  eq_of_perform_single done

/-- A pass within a set does the same whatever the runs have done before. -/
theorem inStep_setPass {set : SetView} (remembers : run'.remembers = run.remembers)
    (done : v.setPass interrupt config set run = .ok next)
    (done' : v.setPass interrupt' config set run' = .ok next') : InStep run run' next next' := by
  obtain ⟨started, met, members, declared, start, enlist, last, done⟩ := setPass_ok_iff.1 done
  obtain ⟨started', met', members', declared', start', enlist', last', done'⟩ :=
    setPass_ok_iff.1 done'
  cases eq_of_perform_pure start
  cases eq_of_perform_pure start'
  -- What a pass knows is forgotten when the next one starts.
  have fresh : SamePass
      (startPass (setRegistry set) (noteRead { run with polls := run.polls + 1 }))
      (startPass (setRegistry set) (noteRead { run' with polls := run'.polls + 1 })) :=
    ⟨rfl, rfl, rfl, remembers⟩
  obtain ⟨rfl, enlisted⟩ := inStep_memberPasses fresh enlist enlist'
  have declares : InStep members members' declared declared' := by
    cases met' with
    | true =>
      cases Except.ok.inj last
      cases Except.ok.inj last'
      exact enlisted.toSamePass.inStep rfl rfl rfl
    | false => exact inStep_declarationPass enlisted.toSamePass last last'
  have refers : InStep declared declared' next next' := by
    cases incomplete : set.settings.isIncomplete with
    | true =>
      rw [incomplete] at done done'
      cases Except.ok.inj done
      cases Except.ok.inj done'
      exact declares.toSamePass.inStep rfl rfl rfl
    | false =>
      rw [incomplete] at done done'
      exact inStep_referencePass declares.toSamePass done done'
  exact ((enlisted.trans declares).trans refers).from_eq rfl rfl rfl

/-! ## What a pass reports -/

/-- What a validation of a config within one set reports, in order, besides the problems of
documents. -/
def reportsWithin (v : Validator) (config : Context) (set : SetView) : List Diagnostic :=
  (lastState (v.run (fun _ _ => false) [] config [set])).diagnostics.toList

/-- These are the reports of one pass, in a run that has just started. -/
theorem exists_reportsWithin (v : Validator) (config : Context) (set : SetView) :
    ∃ start run, v.setPass (fun _ _ => false) config set start = .ok run ∧
      start.remembers = true ∧ start.diagnostics = #[] ∧
      run.diagnostics.toList = v.reportsWithin config set := by
  obtain ⟨run, done⟩ := pass_completes v config (some set)
    (noteRead { ({ polls := 1 } : Run) with diagnostics := #[] })
  refine ⟨_, run, done, rfl, rfl, ?_⟩
  have alone : v.run (fun _ _ => false) [] config [set] = .ok run :=
    run_eq_ok.2 ⟨_, rfl, bind_eq_ok.2 ⟨run, done, rfl⟩⟩
  rw [reportsWithin, alone]
  rfl

/-- In any run a pass within a set adds what it reports alone. -/
theorem diagnostics_setPass {set : SetView} (remembers : run.remembers = true)
    (done : v.setPass interrupt config set run = .ok next) :
    next.diagnostics.toList = run.diagnostics.toList ++ v.reportsWithin config set ∧
      next.remembers = true := by
  obtain ⟨start, alone, done', remembers', none, reports⟩ := v.exists_reportsWithin config set
  have step := inStep_setPass (remembers'.trans remembers.symm) done done'
  obtain ⟨added, eq, eq'⟩ := step.diagnostics
  rw [none, reports] at eq'
  exact ⟨by rw [eq, eq']; rfl, step.stillRemembers.trans remembers⟩

/-- Passes add what each of them reports alone. -/
theorem diagnostics_setPasses {sets : List SetView} (remembers : run.remembers = true)
    (done : v.setPasses interrupt config run sets = .ok next) :
    next.diagnostics.toList
      = run.diagnostics.toList ++ sets.flatMap (v.reportsWithin config) := by
  induction sets generalizing run with
  | nil =>
    cases Except.ok.inj done
    exact (List.append_nil _).symm
  | cons set rest ih =>
    obtain ⟨between, here, others⟩ := bind_eq_ok.1 done
    obtain ⟨added, remembers'⟩ := diagnostics_setPass remembers here
    rw [ih remembers' others, added, List.flatMap_cons, List.append_assoc]

/-- The diagnostics of a validation within sets are the problems of documents, and then what is
reported within each set alone; each diagnostic once. -/
theorem validate_eq_some {problems ds : List Diagnostic} {sets : List SetView}
    (within : sets ≠ [])
    (done : v.validate interrupt problems config sets = some ds) :
    ds = Keyed.distinct (problems ++ sets.flatMap (v.reportsWithin config)) := by
  rw [validate] at done
  cases outcome : v.run interrupt problems config sets with
  | error run =>
    rw [outcome] at done
    cases done
  | ok run =>
    rw [outcome] at done
    cases Option.some.inj done
    obtain ⟨start, started, passes⟩ := run_eq_ok.1 outcome
    cases eq_of_perform_pure started
    rw [if_neg (by simpa using within)] at passes
    exact congrArg Keyed.distinct (diagnostics_setPasses rfl passes)

end Validator

end BeanWiring
