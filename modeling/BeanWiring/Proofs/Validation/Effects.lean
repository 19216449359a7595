/-
# What a step of a validation does

The steps of a validation are described by their effect.  The *roll* of a run is what it
knows of names, the registry and the beans that were refused; a step turns the roll into
another.  Diagnostics are only ever added, and of those of a given kind the effect says
which ones they are.  The kind may be a code, or anything else that tells diagnostics apart.
Everything else in a run, the questions to the type index and the merged definitions, is left
open.

Main statements:

* `Check.Effect.bind` : the effect of two steps one after the other;
* `Check.closed_quiet`, `Check.closedLookups_quiet` : checks that report other things add
  nothing of the kind;
* `Performs.append`, `Performs.flatMap` : the effect of lists of tasks.
-/
import BeanWiring.Proofs.Validation.Steps

namespace BeanWiring

/-! ## Kinds of diagnostics -/

namespace Diagnostic

/-- A kind of diagnostics. -/
abbrev Kind := Diagnostic → Prop

/-- The diagnostics with a code. -/
def Kind.ofCode (code : String) : Kind := fun d => d.code = some code

instance : Coe String Kind := ⟨Kind.ofCode⟩

/-- A report has the code of what was found. -/
theorem Kind.not_ofCode {code : String} {b : Bean} {line : Nat} {f : Finding}
    (other : f.code ≠ code) : ¬Kind.ofCode code (Report.bean b line f).toDiagnostic :=
  fun same => other (Option.some.inj same)

end Diagnostic

open Diagnostic (Kind)

/-! ## Runs -/

/-- What a pass knows of names: its registry, and the beans that the registry refused. -/
structure Roll where
  registry : Registry
  refused : List BeanId := []

namespace Run

/-- The roll of a run. -/
def roll (run : Run) : Roll := ⟨run.registry, run.unregistered⟩

/-- From one run to the other diagnostics are only added, and of those with the code `code`
exactly the ones that satisfy `P`. -/
def Adds (code : String) (P : Diagnostic → Prop) (run run' : Run) : Prop :=
  ∃ added, run'.diagnostics.toList = run.diagnostics.toList ++ added ∧
    ∀ d, d.code = some code → (d ∈ added ↔ P d)

/-- From one run to the other diagnostics are only added, and of those of a kind exactly the ones
that satisfy `P`. -/
def AddsOf (kind : Kind) (P : Diagnostic → Prop) (run run' : Run) : Prop :=
  ∃ added, run'.diagnostics.toList = run.diagnostics.toList ++ added ∧
    ∀ d, kind d → (d ∈ added ↔ P d)

variable {kind : Kind} {P Q : Diagnostic → Prop} {run run' run'' : Run}

/-- What leaves the diagnostics as they are adds none. -/
theorem AddsOf.of_eq (same : run'.diagnostics = run.diagnostics) :
    AddsOf kind (fun _ => False) run run' := by
  refine ⟨[], by simp [same], ?_⟩
  intro d _
  simp

/-- Diagnostics added in two turns are those of either turn. -/
theorem AddsOf.trans (first : AddsOf kind P run run') (second : AddsOf kind Q run' run'') :
    AddsOf kind (fun d => P d ∨ Q d) run run'' := by
  obtain ⟨before, eq, isP⟩ := first
  obtain ⟨after, eq', isQ⟩ := second
  refine ⟨before ++ after, by rw [eq', eq, List.append_assoc], ?_⟩
  intro d hd
  rw [List.mem_append, isP d hd, isQ d hd]

/-- What is added may be described by any condition that agrees on the diagnostics of the kind. -/
theorem AddsOf.congr (h : AddsOf kind P run run') (same : ∀ d, kind d → (P d ↔ Q d)) :
    AddsOf kind Q run run' := by
  obtain ⟨added, eq, isP⟩ := h
  exact ⟨added, eq, fun d hd => (isP d hd).trans (same d hd)⟩

/-- What has been added is one thing only. -/
theorem AddsOf.mem_iff (h : run.AddsOf kind P run') {added : List Diagnostic}
    (appended : run'.diagnostics.toList = run.diagnostics.toList ++ added) {d : Diagnostic}
    (hd : kind d) : d ∈ added ↔ P d := by
  obtain ⟨added', appended', isP⟩ := h
  have same : added = added' := List.append_cancel_left (appended.symm.trans appended')
  rw [same, isP d hd]

/-- Two descriptions of what one run adds agree on the diagnostics of both kinds. -/
theorem AddsOf.iff {kind' : Kind} (h : run.AddsOf kind P run') (h' : run.AddsOf kind' Q run')
    {d : Diagnostic} (hd : kind d) (hd' : kind' d) : P d ↔ Q d := by
  obtain ⟨added, appended, isQ⟩ := h'
  rw [← h.mem_iff appended hd, isQ d hd']

end Run

/-! ## Steps -/

namespace Check

/-- A step that turns the roll by `f`, and that of the diagnostics of a kind adds exactly those
that satisfy `P`, given the roll it starts with. -/
def Effect (kind : Kind) {α : Type} (c : Check α) (f : Roll → Roll)
    (P : Roll → Diagnostic → Prop) : Prop :=
  ∀ run, (c.run run).2.roll = f run.roll ∧ run.AddsOf kind (P run.roll) (c.run run).2

/-- A step that turns the roll by `f` and adds no diagnostic of the kind. -/
abbrev Turns (kind : Kind) {α : Type} (c : Check α) (f : Roll → Roll) : Prop :=
  Effect kind c f (fun _ _ => False)

/-- A step that leaves the roll alone and adds no diagnostic of the kind. -/
abbrev Quiet (kind : Kind) {α : Type} (c : Check α) : Prop :=
  Turns kind c id

variable {kind : Kind} {α β : Type} {c : Check α} {g : α → Check β}
  {f f' : Roll → Roll} {P Q : Roll → Diagnostic → Prop}

/-- How a step turns the roll and what it adds may be described in any equal way. -/
theorem Effect.congr (h : Effect kind c f P) (turns : ∀ r, f r = f' r)
    (adds : ∀ r d, kind d → (P r d ↔ Q r d)) : Effect kind c f' Q := by
  intro run
  obtain ⟨rolls, added⟩ := h run
  exact ⟨rolls.trans (turns _), added.congr (adds _)⟩

/-- Steps one after the other: the second starts with the roll that the first leaves. -/
theorem Effect.bind (first : Effect kind c f P) (second : ∀ a, Effect kind (g a) f' Q) :
    Effect kind (c >>= g) (fun r => f' (f r)) (fun r d => P r d ∨ Q (f r) d) := by
  intro run
  obtain ⟨rolls, added⟩ := first run
  obtain ⟨rolls', added'⟩ := second (c.run run).1 (c.run run).2
  rw [rolls] at rolls' added'
  exact ⟨rolls', added.trans added'⟩

/-- Steps that only turn the roll turn it one after the other. -/
theorem Turns.bind (first : Turns kind c f) (second : ∀ a, Turns kind (g a) f') :
    Turns kind (c >>= g) (fun r => f' (f r)) :=
  (Effect.bind first second).congr (fun _ => rfl) (fun _ _ _ => by simp)

/-- A quiet step in front does not change the effect of what follows. -/
theorem Quiet.bind (first : Quiet kind c) (second : ∀ a, Effect kind (g a) f P) :
    Effect kind (c >>= g) f P :=
  (Effect.bind first second).congr (fun _ => rfl) (fun _ _ _ => by simp)

/-- Quiet steps stay quiet one after the other. -/
theorem Quiet.bind_quiet (first : Quiet kind c) (second : ∀ a, Quiet kind (g a)) :
    Quiet kind (c >>= g) :=
  Quiet.bind first second

/-- A step that looks at the registry may act on what it sees. -/
theorem Effect.context_bind {g : Context → Check β} {P : Context → Roll → Diagnostic → Prop}
    (h : ∀ ctx, Effect kind (g ctx) id (P ctx)) :
    Effect kind (context >>= g) id (fun r => P r.registry.toContext r) := by
  intro run
  exact h run.registry.toContext run

/-- Steps for the entries of a list that leave the roll alone add what is added for one of
the entries. -/
theorem Effect.list (step : α → Check Unit) (all : List α → Check Unit)
    {P : α → Roll → Diagnostic → Prop} (nil : all [] = pure ())
    (cons : ∀ x xs, all (x :: xs) = step x >>= fun _ => all xs)
    (h : ∀ x, Effect kind (step x) id (P x)) (xs : List α) :
    Effect kind (all xs) id (fun r d => ∃ x ∈ xs, P x r d) := by
  induction xs with
  | nil =>
    rw [nil]
    intro run
    exact ⟨rfl, (Run.AddsOf.of_eq rfl).congr fun _ _ => by simp⟩
  | cons x xs ih =>
    rw [cons]
    exact (Effect.bind (h x) fun _ => ih).congr (fun _ => rfl) (fun _ _ _ => by simp)

/-! ### Single steps -/

theorem quiet_pure (a : α) : Quiet kind (pure a : Check α) :=
  fun _ => ⟨rfl, .of_eq rfl⟩

/-- A step that may be skipped. -/
theorem Effect.unless {c : Check Unit} {skipped : Bool}
    (h : skipped = false → Effect kind c id P) :
    Effect kind (if skipped then pure () else c) id (fun r d => skipped = false ∧ P r d) := by
  cases skipped with
  | true => exact Effect.congr (quiet_pure ()) (fun _ => rfl) (fun _ _ _ => by simp)
  | false => exact (h rfl).congr (fun _ => rfl) (fun _ _ _ => by simp)

/-- A report on a bean adds its diagnostic and nothing else. -/
theorem effect_reportAt (b : Bean) (line : Nat) (finding : Finding) :
    Effect kind (reportAt b line finding) id
      (fun _ d => d = (Report.bean b line finding).toDiagnostic) := by
  intro run
  refine ⟨rfl, [(Report.bean b line finding).toDiagnostic], Array.toList_push, ?_⟩
  intro d _
  rw [List.mem_singleton]

/-- A report on an alias adds its diagnostic and nothing else. -/
theorem effect_reportAlias (a : BeanAlias) (finding : AliasFinding) :
    Effect kind (reportAlias a finding) id
      (fun _ d => d = (Report.aliasing a finding).toDiagnostic) := by
  intro run
  refine ⟨rfl, [(Report.aliasing a finding).toDiagnostic], Array.toList_push, ?_⟩
  intro d _
  rw [List.mem_singleton]

/-- A diagnostic of another kind is none of those counted. -/
theorem Effect.quiet {d : Diagnostic} (h : Effect kind c id (fun _ d' => d' = d))
    (other : ¬kind d) : Quiet kind c := by
  refine h.congr (fun _ => rfl) ?_
  intro _ d' hd
  refine iff_of_false ?_ id
  rintro rfl
  exact other hd

/-- A report of another kind is quiet. -/
theorem quiet_reportAt (b : Bean) (line : Nat) (finding : Finding)
    (other : ¬kind (Report.bean b line finding).toDiagnostic) :
    Quiet kind (reportAt b line finding) :=
  (effect_reportAt b line finding).quiet other

/-- A report on an alias of another kind is quiet. -/
theorem quiet_reportAlias (a : BeanAlias) (finding : AliasFinding)
    (other : ¬kind (Report.aliasing a finding).toDiagnostic) :
    Quiet kind (reportAlias a finding) :=
  (effect_reportAlias a finding).quiet other

/-- Taking the merged definition of a bean is quiet, whatever it costs. -/
theorem quiet_mergedDefinition (b : Bean) : Quiet kind (mergedDefinition b) :=
  fun _ => ⟨rfl, .of_eq rfl⟩

/-- What is made of reports of other kinds adds no diagnostic of the kind. -/
theorem closed_quiet (kind : Kind) : Closed (fun r => ¬kind r.toDiagnostic) (Quiet kind) where
  pure := quiet_pure
  bind := Quiet.bind_quiet
  ask _ := fun _ => ⟨rfl, .of_eq rfl⟩
  reportAt b line finding := quiet_reportAt b line finding

/-- Look-ups and merged definitions add no diagnostic, whatever they come to. -/
theorem closedLookups_quiet (kind : Kind) :
    ClosedLookups (fun r => ¬kind r.toDiagnostic) (fun _ => True) (fun _ => True)
      (Quiet kind) where
  toClosed := closed_quiet kind
  reportAlias a := quiet_reportAlias a .targetNotFound
  context h := fun run => h run.registry.toContext trivial run
  merged _ := quiet_mergedDefinition _
  found _ _ := trivial

end Check

/-! ## Tasks -/

/-- Tasks that, once all of them are done, have turned the roll by `f` and have added, of the
diagnostics of a kind, exactly those that satisfy `P`. -/
def Performs (kind : Kind) (tasks : List (Check Unit)) (f : Roll → Roll)
    (P : Roll → Diagnostic → Prop) : Prop :=
  ∀ (interrupt : Interrupt) (run run' : Run), perform interrupt run tasks = .ok run' →
    run'.roll = f run.roll ∧ run.AddsOf kind (P run.roll) run'

/-- A part of a validation is done to the end if each of its steps is. -/
theorem bind_eq_ok {ε α β : Type} {x : Except ε α} {f : α → Except ε β} {b : β} :
    (x >>= f) = .ok b ↔ ∃ a, x = .ok a ∧ f a = .ok b := by
  cases x with
  | error e =>
    constructor
    · intro h
      cases h
    · rintro ⟨_, h, -⟩
      cases h
  | ok a =>
    constructor
    · exact fun h => ⟨a, rfl, h⟩
    · rintro ⟨a', h, h'⟩
      cases Except.ok.inj h
      exact h'

/-- Tasks are done one after the other. -/
theorem perform_append (interrupt : Interrupt) (run : Run) (first second : List (Check Unit)) :
    perform interrupt run (first ++ second)
      = perform interrupt run first >>= fun run' => perform interrupt run' second := by
  induction first generalizing run with
  | nil => rfl
  | cons task tasks ih =>
    rw [List.cons_append, perform, perform]
    by_cases stop : interrupt run.polls run.typeLookups = true
    · rw [if_pos stop, if_pos stop]
      rfl
    · rw [if_neg stop, if_neg stop]
      exact ih _

/-- Without cancellation tasks are always done to the end. -/
theorem perform_completes (run : Run) (tasks : List (Check Unit)) :
    ∃ run', perform (fun _ _ => false) run tasks = .ok run' :=
  ⟨_, perform_of_not_interrupted run tasks⟩

/-- A single task that was performed was run, after one more question to the interrupt. -/
theorem eq_of_perform_single {interrupt : Interrupt} {run run' : Run} {task : Check Unit}
    (done : perform interrupt run [task] = .ok run') :
    run' = (task.run { run with polls := run.polls + 1 }).2 := by
  rw [perform] at done
  split at done
  · cases done
  · exact (Except.ok.inj done).symm

namespace Performs

variable {kind : Kind} {f f' : Roll → Roll} {P Q : Roll → Diagnostic → Prop}
  {first second : List (Check Unit)}

theorem nil : Performs kind [] id (fun _ _ => False) := by
  intro interrupt run run' done
  cases Except.ok.inj done
  exact ⟨rfl, .of_eq rfl⟩

theorem single {task : Check Unit} (h : task.Effect kind f P) : Performs kind [task] f P := by
  intro interrupt run run' done
  obtain rfl := eq_of_perform_single done
  -- Counting the question to the interrupt is no part of the effect.
  exact h { run with polls := run.polls + 1 }

theorem congr {tasks : List (Check Unit)} (h : Performs kind tasks f P)
    (turns : ∀ r, f r = f' r) (adds : ∀ r d, kind d → (P r d ↔ Q r d)) :
    Performs kind tasks f' Q := by
  intro interrupt run run' done
  obtain ⟨rolls, added⟩ := h interrupt run run' done
  exact ⟨rolls.trans (turns _), added.congr (adds _)⟩

/-- Two lists of tasks performed in a row turn the roll in a row and add what either adds. -/
theorem append (h : Performs kind first f P) (h' : Performs kind second f' Q) :
    Performs kind (first ++ second) (fun r => f' (f r)) (fun r d => P r d ∨ Q (f r) d) := by
  intro interrupt run run'' done
  rw [perform_append, bind_eq_ok] at done
  obtain ⟨run', between, done⟩ := done
  obtain ⟨rolls, added⟩ := h interrupt run run' between
  obtain ⟨rolls', added'⟩ := h' interrupt run' run'' done
  rw [rolls] at rolls' added'
  exact ⟨rolls', added.trans added'⟩

/-- Tasks for the entries of a list turn the roll entry by entry, and each adds what it adds to
the roll that the entries before it leave. -/
theorem map_turning {α : Type} {task : α → Check Unit} {turn : Roll → α → Roll}
    {P : α → Roll → Diagnostic → Prop} (xs : List α)
    (h : ∀ a ∈ xs, (task a).Effect kind (turn · a) (P a)) :
    Performs kind (xs.map task) (xs.foldl turn ·) (fun r d =>
      ∃ before a after, xs = before ++ a :: after ∧ P a (before.foldl turn r) d) := by
  induction xs with
  | nil => exact nil.congr (fun _ => rfl) (fun _ _ _ => by simp)
  | cons x xs ih =>
    have there := ih fun a ha => h a (List.mem_cons_of_mem x ha)
    refine ((single (h x List.mem_cons_self)).append there).congr (fun _ => rfl) ?_
    intro r d _
    constructor
    · rintro (here | ⟨before, a, after, rfl, added⟩)
      · exact ⟨[], x, xs, rfl, here⟩
      · exact ⟨x :: before, a, after, rfl, added⟩
    · rintro ⟨before, a, after, split, added⟩
      cases before with
      | nil =>
        cases split
        exact .inl added
      | cons y before =>
        cases split
        exact .inr ⟨before, a, after, rfl, added⟩

/-- Tasks for the entries of a list that add no counted diagnostic turn the roll entry by
entry. -/
theorem map_silent {α : Type} {task : α → Check Unit} {turn : Roll → α → Roll}
    (xs : List α) (h : ∀ a ∈ xs, (task a).Turns kind (turn · a)) :
    Performs kind (xs.map task) (xs.foldl turn ·) (fun _ _ => False) :=
  (map_turning xs h).congr (fun _ => rfl) (fun _ _ _ => by simp)

/-- Tasks for the entries of a list that leave the roll alone add what is added for one of
the entries. -/
theorem flatMap {α : Type} {tasks : α → List (Check Unit)} {P : α → Roll → Diagnostic → Prop}
    (xs : List α) (h : ∀ a ∈ xs, Performs kind (tasks a) id (P a)) :
    Performs kind (xs.flatMap tasks) id (fun r d => ∃ a ∈ xs, P a r d) := by
  induction xs with
  | nil => exact nil.congr (fun _ => rfl) (fun _ _ _ => by simp)
  | cons x xs ih =>
    have here := h x List.mem_cons_self
    have there := ih fun a ha => h a (List.mem_cons_of_mem x ha)
    exact (here.append there).congr (fun _ => rfl) (fun _ _ _ => by simp)

/-- Tasks that leave the roll alone add together what each of them adds. -/
theorem map {α : Type} {task : α → Check Unit} {P : α → Roll → Diagnostic → Prop}
    (xs : List α) (h : ∀ a ∈ xs, (task a).Effect kind id (P a)) :
    Performs kind (xs.map task) id (fun r d => ∃ a ∈ xs, P a r d) := by
  rw [List.map_eq_flatMap]
  exact flatMap xs fun a ha => single (h a ha)

/-- Tasks each of which adds nothing of the kind. -/
theorem of_quiet {tasks : List (Check Unit)} (h : ∀ task ∈ tasks, task.Quiet kind) :
    Performs kind tasks id (fun _ _ => False) := by
  rw [← List.map_id tasks]
  exact (map tasks h).congr (fun _ => rfl) (fun _ _ _ => by simp)

end Performs

end BeanWiring
