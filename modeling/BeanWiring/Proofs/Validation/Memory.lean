/-
# Validating without memory

A run that remembers no merged definition makes each of them anew.  A step of a validation
*forgets* if it does the same in such a run: it gives the same answer, and leaves a run that
differs in what it remembers only.

The first pass merges nothing, so all its steps forget.  The second pass merges, and forgets
as long as what is remembered is what merging anew would give.

Main statements:

* `forgets_mergedDefinition` : when a remembered definition makes no difference;
* `closedNames_forgets`, `closedLookups_forgets` : the steps of the two passes.
-/
import BeanWiring.Proofs.Lookup.Memo
import BeanWiring.Proofs.Validation.References

namespace BeanWiring

/-! ## Runs without memory -/

namespace Run

/-- The run with nothing remembered, now and from now on. -/
def forgetful (run : Run) : Run := { run with cache := {}, remembers := false }

/-- What is known of a run depends only on its registry and on what it remembers. -/
def IsAboutMemory (I : Run → Prop) : Prop :=
  ∀ run run' : Run, run'.registry = run.registry → run'.cache = run.cache → I run → I run'

/-- Nothing is remembered yet. -/
def IsFresh (run : Run) : Prop := run.cache.entries = []

/-- The registry is that of `ctx`, and each remembered definition is the merged definition of
one of the beans that satisfy `P`, under its identity. -/
structure IsFaithful (ctx : Context) (P : Bean → Prop) (run : Run) : Prop where
  context : run.registry.toContext = ctx
  cache : ∀ entry ∈ run.cache.entries, ∃ b, P b ∧ entry = (b.id, merged ctx b)

/-- If nothing is remembered, then everything that is remembered is right. -/
theorem IsFresh.isFaithful {run : Run} (fresh : run.IsFresh) {ctx : Context}
    (current : run.registry.toContext = ctx) (P : Bean → Prop) : run.IsFaithful ctx P where
  context := current
  cache := by
    intro entry there
    rw [fresh] at there
    cases there

theorem isAboutMemory_isFresh : IsAboutMemory IsFresh := by
  intro run run' _ cache fresh
  rw [IsFresh, cache]
  exact fresh

theorem isAboutMemory_isFaithful {ctx : Context} {P : Bean → Prop} :
    IsAboutMemory (IsFaithful ctx P) := by
  intro run run' registry cache faithful
  exact ⟨registry ▸ faithful.context, cache ▸ faithful.cache⟩

end Run

/-! ## Steps -/

namespace Check

open Validator

/-- From the runs that satisfy `I` the step leads to such runs, and it does the same without
memory. -/
def Forgets (I : Run → Prop) {α : Type} (c : Check α) : Prop :=
  ∀ run, I run →
    c.run run.forgetful = ((c.run run).1, (c.run run).2.forgetful) ∧ I (c.run run).2

variable {I : Run → Prop} {α β : Type} {c c' : Check α} {g : α → Check β}

theorem Forgets.pure (a : α) : Forgets I (Pure.pure a : Check α) :=
  fun _ known => ⟨rfl, known⟩

theorem Forgets.bind (first : Forgets I c) (second : ∀ a, Forgets I (g a)) :
    Forgets I (c >>= g) := by
  intro run known
  obtain ⟨same, between⟩ := first run known
  obtain ⟨same', after⟩ := second _ _ between
  have steps : (c >>= g).run run.forgetful
      = (g (c.run run.forgetful).1).run (c.run run.forgetful).2 := rfl
  rw [steps, same]
  exact ⟨same', after⟩

/-! ### Reports and questions -/

section About

variable (about : Run.IsAboutMemory I)
include about

theorem forgets_reportAlias (a : BeanAlias) (finding : AliasFinding) :
    Forgets I (reportAlias a finding) :=
  fun run known => ⟨rfl, about run _ rfl rfl known⟩

/-- Reports and questions have nothing to do with what is remembered. -/
theorem closed_forgets : Closed (fun _ => True) (Forgets I) where
  pure := .pure
  bind := .bind
  ask _ := fun run known => ⟨rfl, about run _ rfl rfl known⟩
  reportAt _ _ _ _ := fun run known => ⟨rfl, about run _ rfl rfl known⟩

end About

/-! ### Merged definitions -/

/-- A step that looks at the registry may act on what it sees. -/
theorem Forgets.context_bind {ctx : Context} {P : Bean → Prop} {g : Context → Check β}
    (h : Forgets (Run.IsFaithful ctx P) (g ctx)) :
    Forgets (Run.IsFaithful ctx P) (context >>= g) := by
  intro run known
  have seen : ∀ state : Run, state.registry = run.registry →
      (context >>= g).run state = (g ctx).run state := by
    intro state same
    rw [← known.context, ← same]
    rfl
  rw [seen run rfl, seen run.forgetful rfl]
  exact h run known

/-- Where beans of one identity have one merged definition, it makes no difference whether
that of a bean is remembered. -/
theorem forgets_mergedDefinition {ctx : Context} {P : Bean → Prop}
    (agree : MergesById ctx P) {b : Bean} (h : P b) :
    Forgets (Run.IsFaithful ctx P) (mergedDefinition b) := by
  intro run known
  have anew : (mergedDefinition b).run run.forgetful = (merged ctx b, run.forgetful) := by
    rw [← known.context]
    rfl
  have answer : (run.cache.merged run.registry.toContext b).1 = merged ctx b := by
    rw [known.context, MergeCache.merged]
    cases found : run.cache.entries.lookup b.id with
    | none => rfl
    | some d =>
      -- What is found was remembered for a bean of the same identity, so it agrees.
      obtain ⟨before, after, entries, -⟩ := List.lookup_eq_some_iff.1 found
      have there : (b.id, d) ∈ run.cache.entries := by
        rw [entries]
        exact List.mem_append_right _ List.mem_cons_self
      obtain ⟨c, hc, same⟩ := known.cache _ there
      rw [Prod.mk.injEq] at same
      exact same.2.trans (agree c b hc h same.1.symm)
  have remembered : ∀ entry ∈ (run.cache.merged run.registry.toContext b).2.entries,
      ∃ c, P c ∧ entry = (c.id, merged ctx c) := by
    intro entry there
    rw [known.context, MergeCache.merged] at there
    cases found : run.cache.entries.lookup b.id with
    | some d =>
      rw [found] at there
      exact known.cache entry there
    | none =>
      rw [found] at there
      rcases List.mem_append.1 there with before | new
      · exact known.cache entry before
      · exact ⟨b, h, List.mem_singleton.1 new⟩
  have remembers : (mergedDefinition b).run run
      = ((run.cache.merged run.registry.toContext b).1,
          { run with cache := if run.remembers then
              (run.cache.merged run.registry.toContext b).2 else run.cache }) := rfl
  rw [anew, remembers, answer]
  refine ⟨rfl, known.context, ?_⟩
  -- A run that does not remember may still hold what it remembered before.
  cases run.remembers with
  | true => exact remembered
  | false => exact known.cache

/-- Where beans of one identity have one merged definition, look-ups in the registry and merged
definitions of what is found forget. -/
theorem closedLookups_forgets {ctx : Context} {P : Bean → Prop} (agree : MergesById ctx P)
    (targets : ∀ b ∈ ctx.allBeans, P b) :
    ClosedLookups (fun _ => True) (· = ctx) P (Forgets (Run.IsFaithful ctx P)) where
  toClosed := closed_forgets Run.isAboutMemory_isFaithful
  reportAlias a _ := forgets_reportAlias Run.isAboutMemory_isFaithful a _
  context h := .context_bind (h ctx rfl)
  merged := forgets_mergedDefinition agree
  found := by
    rintro _ name b rfl found
    exact targets b (Context.resolve?_mem found)

/-! ### Registration -/

/-- What the registry accepts does not depend on what is remembered. -/
theorem forgets_propose (answer : Registry → Except RegistryError Registry)
    {refuse : RegistryError → Check Unit} {rest : Check Unit}
    (refused : ∀ error, Forgets Run.IsFresh (refuse error))
    (after : Forgets Run.IsFresh rest) :
    Forgets Run.IsFresh (propose answer refuse rest) := by
  intro run fresh
  cases reply : answer run.registry with
  | ok registry =>
    have anew : answer run.forgetful.registry = .ok registry := reply
    rw [run_propose_of_ok reply, run_propose_of_ok anew]
    exact after { run with registry } fresh
  | error error =>
    have anew : answer run.forgetful.registry = .error error := reply
    rw [run_propose_of_error reply, run_propose_of_error anew]
    exact ((refused error).bind fun _ => after) run fresh

/-- The steps of the first pass forget: nothing is merged in it. -/
theorem closedNames_forgets : ClosedNames (fun _ => True) (Forgets Run.IsFresh) where
  toClosed := closed_forgets Run.isAboutMemory_isFresh
  propose := forgets_propose
  noteRefused _ := fun _ fresh => ⟨rfl, fresh⟩
  reportRefused a _ _ := forgets_reportAlias Run.isAboutMemory_isFresh a _

end Check

end BeanWiring
