/-
# Cancellation

A validation asks again and again whether it is cancelled.  As long as the answer is no, it goes
on as if it had not asked; so the states in which it asks do not depend on the answers.  At the
first yes it stops, and has no findings at all.

Main statements:

* `Asks` : a part of a validation asks in a sequence of states, and either stops in one of them or
  comes to one end;
* `asks_run` : so does a whole validation;
* `Workspace.findings_all_or_none` : the findings about a config are those of a validation that is
  never cancelled, or none.
-/
import BeanWiring.Proofs.Validation.Passes
import BeanWiring.Workspace.Validation

namespace BeanWiring

/-! ## Interrupts -/

namespace Interrupt

/-- Cancelled from a question on; the first question has number zero. -/
def fromPoll (n : Nat) : Interrupt := fun polls _ => n ≤ polls

/-- Whether a run that asks finds itself cancelled. -/
def stops (interrupt : Interrupt) (run : Run) : Bool := interrupt run.polls run.typeLookups

/-- A run that is never cancelled finds itself cancelled nowhere. -/
theorem find?_never (runs : List Run) : runs.find? (stops fun _ _ => false) = none :=
  List.find?_eq_none.2 fun _ _ => Bool.false_ne_true

/-- A run that is cancelled from a question on finds itself cancelled once it has asked as often. -/
theorem stops_fromPoll (n : Nat) (run : Run) :
    (fromPoll n).stops run = decide (n ≤ run.polls) :=
  rfl

end Interrupt

namespace Run

variable {asked : List Run} (numbers : asked.map Run.polls = List.range asked.length)
include numbers

/-- Among runs that are numbered by what they have counted, a run is found by its number. -/
theorem polls_getElem {n : Nat} (h : n < asked.length) : asked[n].polls = n := by
  have there := congrArg (·[n]?) numbers
  simpa [h] using there

/-- The first run that is cancelled from a question on is the one with its number. -/
theorem find?_fromPoll {n : Nat} (h : n < asked.length) :
    asked.find? (Interrupt.fromPoll n).stops = some asked[n] := by
  refine List.find?_eq_some_iff_getElem.2 ⟨?_, n, h, rfl, fun i hi => ?_⟩
  · rw [Interrupt.stops_fromPoll, polls_getElem numbers h]
    exact decide_eq_true (Nat.le_refl n)
  · rw [Interrupt.stops_fromPoll, polls_getElem numbers (Nat.lt_trans hi h)]
    simpa using hi

/-- There is such a run if the number is not too large. -/
theorem any_fromPoll (n : Nat) :
    asked.any (Interrupt.fromPoll n).stops = decide (n < asked.length) := by
  by_cases h : n < asked.length
  · rw [decide_eq_true h]
    have found := find?_fromPoll numbers h
    exact List.any_eq_true.2 ⟨_, List.mem_of_find?_eq_some found, List.find?_some found⟩
  · rw [decide_eq_false h, List.any_eq_false]
    intro run there stops
    obtain ⟨i, hi, rfl⟩ := List.getElem_of_mem there
    rw [Interrupt.stops_fromPoll, polls_getElem numbers hi] at stops
    exact h (Nat.lt_of_le_of_lt (of_decide_eq_true stops) hi)

end Run

/-! ## Steps -/

namespace Check

open Validator

/-- A step that does not ask whether the run is cancelled. -/
def KeepsPolls {α : Type} (c : Check α) : Prop := ∀ run, (c.run run).2.polls = run.polls

theorem KeepsPolls.pure {α : Type} (a : α) : KeepsPolls (Pure.pure a : Check α) := fun _ => rfl

/-- Steps in a row keep the number of questions if each of them does. -/
theorem KeepsPolls.bind {α β : Type} {c : Check α} {g : α → Check β} (first : KeepsPolls c)
    (rest : ∀ a, KeepsPolls (g a)) : KeepsPolls (c >>= g) := by
  intro run
  have second : ((c >>= g).run run).2 = ((g (c.run run).1).run (c.run run).2).2 := rfl
  rw [second, rest, first]

/-- Steps that ask nothing are closed under what checks are made of. -/
theorem closed_keepsPolls : Closed (fun _ => True) KeepsPolls where
  pure := .pure
  bind := .bind
  ask _ := fun _ => rfl
  reportAt _ _ _ _ := fun _ => rfl

/-- A proposal to the registry asks nothing, whatever comes of it. -/
theorem keepsPolls_propose (answer : Registry → Except RegistryError Registry)
    {refuse : RegistryError → Check Unit} {rest : Check Unit}
    (refused : ∀ error, KeepsPolls (refuse error)) (after : KeepsPolls rest) :
    KeepsPolls (propose answer refuse rest) := by
  intro run
  cases reply : answer run.registry with
  | ok registry =>
    rw [run_propose_of_ok reply]
    exact after { run with registry }
  | error error =>
    rw [run_propose_of_error reply]
    exact (refused error).bind (fun _ => after) run

/-- The steps of the first pass. -/
theorem closedNames_keepsPolls : ClosedNames (fun _ => True) KeepsPolls where
  toClosed := closed_keepsPolls
  propose := keepsPolls_propose
  noteRefused _ := fun _ => rfl
  reportRefused _ _ _ := fun _ => rfl

/-- The steps of the second pass. -/
theorem closedLookups_keepsPolls :
    ClosedLookups (fun _ => True) (fun _ => True) (fun _ => True) KeepsPolls where
  toClosed := closed_keepsPolls
  reportAlias _ _ := fun _ => rfl
  context rest := fun run => rest run.registry.toContext trivial run
  merged _ := fun _ => rfl
  found _ _ := trivial

end Check

/-! ## Parts of a validation -/

/-- A part of a validation that starts with a run and whose result has the state `state`.  It asks
in a sequence of states, numbered on from what the run has counted, whatever it is answered.  It
stops in the first of them in which it is cancelled, and otherwise comes to one end. -/
def Asks {α : Type} (state : α → Run) (run : Run) (part : Interrupt → Except Run α) : Prop :=
  ∃ (asked : List Run) (last : α),
    (∀ interrupt : Interrupt, part interrupt = match asked.find? interrupt.stops with
      | some stopped => .error stopped
      | none => .ok last) ∧
    asked.map Run.polls = List.range' run.polls asked.length ∧
    (state last).polls = run.polls + asked.length

namespace Asks

variable {α β : Type} {state : α → Run} {state' : β → Run} {run : Run}

/-- A part that does not ask. -/
theorem ok {a : α} (same : (state a).polls = run.polls) : Asks state run fun _ => .ok a :=
  ⟨[], a, fun _ => rfl, rfl, same⟩

/-- Parts one after the other. -/
theorem bind {part : Interrupt → Except Run α} {next : Interrupt → α → Except Run β}
    (first : Asks state run part)
    (rest : ∀ a, Asks state' (state a) fun interrupt => next interrupt a) :
    Asks state' run fun interrupt => part interrupt >>= next interrupt := by
  obtain ⟨asked, last, outcome, numbers, count⟩ := first
  obtain ⟨asked', last', outcome', numbers', count'⟩ := rest last
  refine ⟨asked ++ asked', last', fun interrupt => ?_, ?_, ?_⟩
  · show part interrupt >>= next interrupt = _
    rw [outcome, List.find?_append]
    cases asked.find? interrupt.stops with
    | some stopped => rfl
    | none => exact outcome' interrupt
  · rw [List.map_append, numbers, numbers', count, List.length_append, List.range'_append_1]
  · rw [count', count, List.length_append, Nat.add_assoc]

/-- It matters for the numbers alone what the run has done before. -/
theorem of_polls {run' : Run} {part : Interrupt → Except Run α} (h : Asks state run' part)
    (same : run'.polls = run.polls) : Asks state run part := by
  unfold Asks at h
  rwa [same] at h

end Asks

/-- Tasks ask once each, before they are done. -/
theorem asks_perform {tasks : List (Check Unit)} (keep : ∀ task ∈ tasks, task.KeepsPolls)
    (run : Run) : Asks id run fun interrupt => perform interrupt run tasks := by
  induction tasks generalizing run with
  | nil => exact .ok rfl
  | cons task tasks ih =>
    have others := ih (fun t ht => keep t (List.mem_cons_of_mem task ht))
      (task.run { run with polls := run.polls + 1 }).2
    obtain ⟨asked, last, outcome, numbers, count⟩ := others
    rw [keep task List.mem_cons_self] at numbers count
    refine ⟨run :: asked, last, fun interrupt => ?_, ?_, ?_⟩
    · show perform interrupt run (task :: tasks) = _
      rw [perform, List.find?_cons, Interrupt.stops]
      cases interrupt run.polls run.typeLookups with
      | true => rfl
      | false => exact outcome interrupt
    · rw [List.map_cons, numbers, List.length_cons, List.range'_succ]
    · rw [count, List.length_cons]
      show run.polls + 1 + asked.length = run.polls + (asked.length + 1)
      omega

/-- To ask without anything to do. -/
theorem asks_once (run : Run) : Asks id run fun interrupt => perform interrupt run [pure ()] :=
  asks_perform (fun _ there => List.mem_singleton.1 there ▸ .pure ()) run

namespace Validator

open Check

variable (v : Validator) (config : Context)

/-! ## Passes -/

/-- The first pass asks in a fixed sequence of states. -/
theorem asks_declarationPass (set : Option String) (run : Run) :
    Asks id run fun interrupt => v.declarationPass interrupt set config run := by
  have keep : ∀ task ∈ v.declarationTasks set config, task.KeepsPolls :=
    closedNames_keepsPolls.declarationTasks v set (fun _ _ _ _ _ => trivial) fun _ _ _ => trivial
  exact (asks_perform keep run).bind fun _ => .ok rfl

/-- So does the second pass. -/
theorem asks_referencePass (set : Option String) (run : Run) :
    Asks id run fun interrupt => v.referencePass interrupt set config run := by
  have keep : ∀ task ∈ v.referenceTasks set run.unregistered config, task.KeepsPolls :=
    closedLookups_keepsPolls.referenceTasks v set run.unregistered
      (fun _ _ => ⟨trivial, fun _ _ => trivial⟩) (fun _ _ _ _ _ => trivial) fun _ _ _ => trivial
  exact asks_perform keep run

/-- So do the passes over the members of a set. -/
theorem asks_memberPasses (set : String) (members : List SetMember) (met : Bool) (run : Run) :
    Asks Prod.snd run fun interrupt => v.memberPasses interrupt set config met run members := by
  induction members generalizing met run with
  | nil => exact .ok rfl
  | cons member rest ih =>
    cases member with
    | self =>
      have turn : Asks id run fun interrupt =>
          v.declarationPass interrupt (some set) config (noteRead run) :=
        (v.asks_declarationPass config (some set) (noteRead run)).of_polls rfl
      exact turn.bind fun declared => ih true declared
    | other member => exact (ih met _).of_polls rfl

/-- The end of a pass within a set. -/
theorem asks_setEnd (set : SetView) (run : Run) :
    Asks id run fun interrupt =>
      if set.settings.isIncomplete then .ok run
      else v.referencePass interrupt (some set.name) config run := by
  cases set.settings.isIncomplete with
  | true => exact .ok rfl
  | false => exact v.asks_referencePass config (some set.name) run

/-- So does the pass over a set. -/
theorem asks_setPass (set : SetView) (run : Run) :
    Asks id run fun interrupt => v.setPass interrupt config set run := by
  refine (asks_once run).bind fun started => ?_
  have members : Asks Prod.snd started fun interrupt => v.memberPasses interrupt set.name config
      false (startPass (setRegistry set) (noteRead started)) set.members :=
    (v.asks_memberPasses config set.name set.members false _).of_polls rfl
  refine members.bind fun found => ?_
  obtain ⟨met, found⟩ := found
  -- A config that is no member of the set has its turn after them.
  cases met with
  | true => exact v.asks_setEnd config set found
  | false =>
    exact (v.asks_declarationPass config (some set.name) found).bind (v.asks_setEnd config set)

/-- So do the passes over several sets. -/
theorem asks_setPasses (sets : List SetView) (run : Run) :
    Asks id run fun interrupt => v.setPasses interrupt config run sets := by
  induction sets generalizing run with
  | nil => exact .ok rfl
  | cons set rest ih => exact (v.asks_setPass config set run).bind ih

/-- So does the pass over a config by itself. -/
theorem asks_ownPass (run : Run) :
    Asks id run fun interrupt => v.ownPass interrupt config run := by
  have declares : Asks id run fun interrupt =>
      v.declarationPass interrupt none config (startPass (.forConfig config.name) run) :=
    (v.asks_declarationPass config none _).of_polls rfl
  exact declares.bind (v.asks_referencePass config none)

/-! ## Whole validations -/

section Whole

variable (problems : List Diagnostic) (sets : List SetView)

/-- A validation asks before it has done anything, and then as its passes do. -/
theorem asks_run : Asks id {} fun interrupt => v.run interrupt problems config sets := by
  refine (asks_once {}).bind fun started => ?_
  have count : (noteRead { started with diagnostics := problems.toArray }).polls = started.polls :=
    rfl
  cases sets with
  | nil => exact (v.asks_ownPass config _).of_polls count
  | cons set rest => exact (v.asks_setPasses config (set :: rest) _).of_polls count

/-- The states in which a validation asks whether it is cancelled, if it never is: those in which
it is found when it is cancelled from one of its questions on. -/
def pollsOf : List Run :=
  (List.range (lastState (v.run (fun _ _ => false) problems config sets)).polls).map fun n =>
    lastState (v.run (.fromPoll n) problems config sets)

/-- The states in which a validation asks are numbered from zero on.  It stops in the first of them
in which it is cancelled, and otherwise it comes to its end. -/
theorem asks_pollsOf :
    (v.pollsOf config problems sets).map Run.polls
        = List.range (v.pollsOf config problems sets).length ∧
      ∃ last, ∀ interrupt, v.run interrupt problems config sets =
        match (v.pollsOf config problems sets).find? interrupt.stops with
        | some stopped => .error stopped
        | none => .ok last := by
  obtain ⟨asked, last, outcome, numbers, count⟩ := v.asks_run config problems sets
  have numbered : asked.map Run.polls = List.range asked.length := by
    rw [numbers, List.range_eq_range']
  have never : v.run (fun _ _ => false) problems config sets = .ok last := by
    refine (outcome _).trans ?_
    rw [Interrupt.find?_never]
  have total : last.polls = asked.length := count.trans (Nat.zero_add _)
  have states : v.pollsOf config problems sets = asked := by
    unfold pollsOf
    rw [never, lastState, total]
    refine List.ext_getElem (by simp) fun n h h' => ?_
    rw [List.getElem_map, List.getElem_range]
    refine (congrArg lastState (outcome _)).trans ?_
    rw [Run.find?_fromPoll numbered h', lastState]
  rw [states]
  exact ⟨numbered, last, outcome⟩

/-- The findings of a validation that is cancelled at some of its questions, or at none. -/
theorem validate_eq_ite (interrupt : Interrupt) :
    v.validate interrupt problems config sets =
      if (v.pollsOf config problems sets).any interrupt.stops then none
      else v.validate (fun _ _ => false) problems config sets := by
  obtain ⟨-, last, outcome⟩ := v.asks_pollsOf config problems sets
  have never : v.run (fun _ _ => false) problems config sets = .ok last := by
    rw [outcome, Interrupt.find?_never]
  rw [validate, validate, never, outcome]
  cases first : (v.pollsOf config problems sets).find? interrupt.stops with
  | some stopped =>
    have stops : (v.pollsOf config problems sets).any interrupt.stops = true :=
      List.any_eq_true.2 ⟨stopped, List.mem_of_find?_eq_some first, List.find?_some first⟩
    rw [if_pos stops, findings]
  | none =>
    have goesOn : ¬(v.pollsOf config problems sets).any interrupt.stops = true := by
      simpa using first
    rw [if_neg goesOn]

/-- A validation that is cancelled before it starts has no findings. -/
theorem validate_fromPoll_zero :
    v.validate (.fromPoll 0) problems config sets = none :=
  rfl

/-- A validation asks at least once. -/
theorem pollsOf_ne_nil : v.pollsOf config problems sets ≠ [] := by
  intro nothing
  have found := v.validate_eq_ite config problems sets (.fromPoll 0)
  rw [nothing, List.any_nil, if_neg Bool.false_ne_true, validate_fromPoll_zero] at found
  obtain ⟨ds, done⟩ := v.validate_completes config problems sets
  rw [done] at found
  cases found

end Whole

end Validator

namespace Workspace

variable {σ : Type} [DocumentSource σ]

/-- The states in which the validation of a config within sets asks whether it is cancelled. -/
def pollsOf (ws : Workspace σ) (v : Validator) (config : ConfigId) (sets : List SetId) :
    List Run :=
  let scene := ((scene config sets).run ws).1
  v.pollsOf scene.config.toContext scene.config.problems scene.sets

/-- **Cancellation.**  The validation of a config within sets asks at least once whether it is
cancelled, and its questions are numbered from zero on.  If it is cancelled at one of them it has
no findings, and otherwise it has those of a validation that is never cancelled.  So it has none if
it is cancelled from one of its questions on, be it the first. -/
theorem findings_all_or_none (ws : Workspace σ) (v : Validator) (config : ConfigId)
    (sets : List SetId) :
    let polls := ws.pollsOf v config sets
    let found := fun interrupt => ((validateIn v interrupt config sets).run ws).1.findings
    polls ≠ [] ∧ polls.map Run.polls = List.range polls.length ∧
      (∃ ds, found (fun _ _ => false) = some ds) ∧
      (∀ interrupt : Interrupt,
        found interrupt = if polls.any interrupt.stops then none else found fun _ _ => false) ∧
      (∀ n, found (.fromPoll n) = if n < polls.length then none else found fun _ _ => false) ∧
      found (.fromPoll 0) = none := by
  intro polls found
  let scene := ((scene config sets).run ws).1
  let problems := scene.config.problems
  let context := scene.config.toContext
  have numbers : polls.map Run.polls = List.range polls.length :=
    (v.asks_pollsOf context problems scene.sets).1
  have outcome : ∀ interrupt : Interrupt, found interrupt
      = if polls.any interrupt.stops then none else found fun _ _ => false :=
    v.validate_eq_ite context problems scene.sets
  refine ⟨v.pollsOf_ne_nil context problems scene.sets, numbers,
    v.validate_completes context problems scene.sets, outcome, fun n => ?_,
    v.validate_fromPoll_zero context problems scene.sets⟩
  rw [outcome, Run.any_fromPoll numbers]
  simp only [decide_eq_true_eq]

end Workspace

end BeanWiring
