/-
# Remembering makes no difference

A pass that remembers merged definitions comes to the same end as one that makes each of them
anew, as long as beans of one identity have one merged definition.  So it does where all beans
have identities of their own; two inner beans that start on one line of one bean can make a
difference.

Main statements:

* `pass_forgetful` : a pass does the same without memory;
* `remembering_iff` : when a cache, and with it a pass, answers as merging anew would.
-/
import BeanWiring.Proofs.Validation.Memory
import BeanWiring.Proofs.Validation.Passes

namespace BeanWiring

/-! ## Outcomes -/

/-- What a part of a validation comes to with nothing remembered, where `f` forgets what is
remembered in its result. -/
def forgetfully {α : Type} (f : α → α) : Except Run α → Except Run α
  | .ok a => .ok (f a)
  | .error run => .error run.forgetful

/-- Parts of a validation, one after the other. -/
theorem forgetfully_bind {α β : Type} {f : α → α} {f' : β → β} {x x' : Except Run α}
    {g : α → Except Run β} (first : x' = forgetfully f x)
    (second : ∀ a, x = .ok a → g (f a) = forgetfully f' (g a)) :
    (x' >>= g) = forgetfully f' (x >>= g) := by
  rw [first]
  cases x with
  | error run => rfl
  | ok a => exact second a rfl

/-- Tasks that forget come to the same end without memory. -/
theorem perform_forgetful {I : Run → Prop} (about : Run.IsAboutMemory I)
    (interrupt : Interrupt) {tasks : List (Check Unit)} (h : ∀ task ∈ tasks, task.Forgets I)
    {run : Run} (known : I run) :
    perform interrupt run.forgetful tasks
        = forgetfully Run.forgetful (perform interrupt run tasks) ∧
      ∀ run', perform interrupt run tasks = .ok run' → I run' := by
  induction tasks generalizing run with
  | nil =>
    refine ⟨rfl, fun run' done => ?_⟩
    cases Except.ok.inj done
    exact known
  | cons task tasks ih =>
    rw [perform, perform]
    by_cases stop : interrupt run.polls run.typeLookups = true
    · have stops : interrupt run.forgetful.polls run.forgetful.typeLookups = true := stop
      rw [if_pos stop, if_pos stops]
      exact ⟨rfl, fun run' done => by cases done⟩
    · have goes : ¬interrupt run.forgetful.polls run.forgetful.typeLookups = true := stop
      rw [if_neg stop, if_neg goes]
      -- Asking whether the run is cancelled has nothing to do with memory.
      obtain ⟨same, after⟩ := h task List.mem_cons_self { run with polls := run.polls + 1 }
        (about run _ rfl rfl known)
      have asked : { run.forgetful with polls := run.forgetful.polls + 1 }
          = ({ run with polls := run.polls + 1 } : Run).forgetful := rfl
      rw [asked, same]
      exact ih (fun t ht => h t (List.mem_cons_of_mem task ht)) after

namespace Validator

open Check

section Passes

variable (v : Validator) (interrupt : Interrupt) (config : Context)

/-! ## First passes -/

theorem declarationPass_forgetful (set : Option String) (run : Run) (fresh : run.IsFresh) :
    v.declarationPass interrupt set config run.forgetful
        = forgetfully Run.forgetful (v.declarationPass interrupt set config run) ∧
      ∀ run', v.declarationPass interrupt set config run = .ok run' → run'.IsFresh := by
  have forget : ∀ task ∈ v.declarationTasks set config, task.Forgets Run.IsFresh :=
    closedNames_forgets.declarationTasks v set (fun _ _ _ _ _ => trivial) fun _ _ _ => trivial
  obtain ⟨same, after⟩ := perform_forgetful Run.isAboutMemory_isFresh interrupt forget fresh
  refine ⟨forgetfully_bind same fun _ _ => rfl, ?_⟩
  intro run' done
  obtain ⟨declared, tasks, finish⟩ := bind_eq_ok.1 done
  cases Except.ok.inj finish
  exact after declared tasks

/-- What the members of a set come to without memory. -/
theorem memberPasses_forgetful (set : String) (members : List SetMember) (met : Bool)
    (run : Run) (fresh : run.IsFresh) :
    v.memberPasses interrupt set config met run.forgetful members
        = forgetfully (Prod.map id Run.forgetful)
            (v.memberPasses interrupt set config met run members) ∧
      ∀ found, v.memberPasses interrupt set config met run members = .ok found →
        found.2.IsFresh := by
  induction members generalizing met run with
  | nil =>
    refine ⟨rfl, fun found done => ?_⟩
    cases Except.ok.inj done
    exact fresh
  | cons member rest ih =>
    cases member with
    | self =>
      obtain ⟨same, after⟩ :=
        declarationPass_forgetful v interrupt config (some set) (noteRead run) fresh
      refine ⟨forgetfully_bind same fun declared done => (ih true declared (after _ done)).1, ?_⟩
      intro found done
      obtain ⟨declared, first, others⟩ := bind_eq_ok.1 done
      exact (ih true declared (after declared first)).2 found others
    | other member =>
      exact ih met { noteRead run with registry := run.registry.registerAll member } fresh

/-! ## Second passes -/

/-- The beans whose merged definitions a second pass asks for: those that names stand for, and
those of the config, with all beans nested in them. -/
abbrev Asked (ctx config : Context) : Bean → Prop :=
  Bean.Within (ctx.allBeans ++ config.beans)

theorem asked_of_registered {ctx config : Context} : ∀ b ∈ ctx.allBeans, Asked ctx config b :=
  fun _ there => .own (List.mem_append_left _ there)

theorem asked_of_declared {ctx config : Context} :
    ∀ b ∈ config.beans, Asked ctx config b ∧ ∀ x ∈ b.innerDeep, Asked ctx config x := by
  intro b declared
  have own : Asked ctx config b := .own (List.mem_append_right _ declared)
  exact ⟨own, own.innerDeep⟩

theorem referencePass_forgetful (set : Option String) {run : Run} (fresh : run.IsFresh)
    {ctx : Context} (current : run.registry.toContext = ctx)
    (agree : MergesById ctx (Asked ctx config)) :
    v.referencePass interrupt set config run.forgetful
      = forgetfully Run.forgetful (v.referencePass interrupt set config run) := by
  have lookups := closedLookups_forgets agree asked_of_registered
  have forget : ∀ t ∈ v.referenceTasks set run.unregistered config,
      t.Forgets (Run.IsFaithful ctx (Asked ctx config)) :=
    lookups.referenceTasks v set run.unregistered asked_of_declared (fun _ _ _ _ _ => trivial)
      fun _ _ _ => trivial
  exact (perform_forgetful Run.isAboutMemory_isFaithful interrupt forget
    (fresh.isFaithful current _)).1

/-! ## Passes -/

/-- The names that are looked up in the second part of a pass. -/
def finalContext (set : Option SetView) : Context :=
  (v.finalRoll config set).registry.toContext

/-- The end of a pass within a set. -/
theorem setEnd_forgetful {set : SetView} {declared : Run} (fresh : declared.IsFresh)
    (final : declared.roll = v.finalRoll config (some set))
    (agree : MergesById (v.finalContext config (some set))
      (Asked (v.finalContext config (some set)) config)) :
    (if set.settings.isIncomplete then .ok declared.forgetful else
        v.referencePass interrupt (some set.name) config declared.forgetful)
      = forgetfully Run.forgetful (if set.settings.isIncomplete then .ok declared else
          v.referencePass interrupt (some set.name) config declared) := by
  cases set.settings.isIncomplete with
  | true => rfl
  | false =>
    exact referencePass_forgetful v interrupt config (some set.name) fresh
      (congrArg (fun r => r.registry.toContext) final) agree

/-- **Memory.**  Where beans of one identity have one merged definition, a pass comes to the
same end whether or not it remembers merged definitions. -/
theorem pass_forgetful (set : Option SetView) (run : Run)
    (agree : MergesById (v.finalContext config set) (Asked (v.finalContext config set) config)) :
    v.pass interrupt config set run.forgetful
      = forgetfully Run.forgetful (v.pass interrupt config set run) := by
  have unused : "UNDEFINED_REFERENCED_BEAN" ∉ declarationCodes := by decide
  cases set with
  | none =>
    obtain ⟨same, after⟩ := declarationPass_forgetful v interrupt config none
      (startPass (.forConfig config.name) run) rfl
    refine forgetfully_bind same fun declared done => ?_
    have rolls := (declarationPass_ok unused done).1
    exact referencePass_forgetful v interrupt config none (after declared done)
      (congrArg (fun r => r.registry.toContext) rolls) agree
  | some set =>
    -- The question before the set has nothing to do with memory.
    have asks : perform interrupt run.forgetful [pure ()]
        = forgetfully Run.forgetful (perform interrupt run [pure ()]) := by
      have forgets : ∀ task ∈ [(pure () : Check Unit)], task.Forgets fun _ => True := by
        intro task there
        rw [List.mem_singleton.1 there]
        exact .pure ()
      exact (perform_forgetful (fun _ _ _ _ _ => trivial) interrupt forgets trivial).1
    refine forgetfully_bind asks fun started _ => ?_
    obtain ⟨same, after⟩ := memberPasses_forgetful v interrupt config set.name set.members false
      (startPass (setRegistry set) (noteRead started)) rfl
    refine forgetfully_bind same fun found members => ?_
    obtain ⟨met, found⟩ := found
    -- The second part looks names up in the registry that both runs end with.
    have rolls := (memberPasses_ok unused members).1
    have fresh : found.IsFresh := after _ members
    cases met with
    | true =>
      have ends : (if true then .ok found else
          v.declarationPass interrupt (some set.name) config found) = .ok found := if_pos rfl
      have final := (lastPass_ok unused rolls ends).1
      exact setEnd_forgetful v interrupt config fresh final agree
    | false =>
      obtain ⟨same, after⟩ := declarationPass_forgetful v interrupt config (some set.name) found
        fresh
      refine forgetfully_bind same fun declared done => ?_
      have final := (lastPass_ok unused rolls done).1
      exact setEnd_forgetful v interrupt config (after declared done) final agree

end Passes

/-- **Remembering.**  A cache answers as if each definition were merged anew exactly if, of the
beans that it is asked for, those of one identity have one merged definition.  Beans with
identities of their own do; and where those that a pass asks for do, the pass comes to the same
end without memory. -/
theorem remembering_iff (ctx : Context) (bs : List Bean) :
    (({} : MergeCache).answers ctx bs = bs.map (merged ctx) ↔ MergesById ctx (· ∈ bs)) ∧
    (Bean.HasOwnIds bs → MergesById ctx (Bean.Within bs)) ∧
    ∀ (v : Validator) (interrupt : Interrupt) (config : Context) (set : Option SetView)
      (run : Run), v.finalContext config set = ctx → MergesById ctx (Asked ctx config) →
        v.pass interrupt config set run.forgetful
          = forgetfully Run.forgetful (v.pass interrupt config set run) := by
  refine ⟨MergeCache.answers_eq_map_iff ctx bs, fun own => own.mergesById ctx, ?_⟩
  rintro v interrupt config set run rfl agree
  exact pass_forgetful v interrupt config set run agree

/-! ### Two inner beans -/

namespace Pair

/-- A bean that could make others. -/
def factory : Bean :=
  .named "beans.xml" ⟨"f", [], { className := some "Foo", location := .atLine "beans.xml" 1 }⟩

/-- A declaration without a name. -/
def first : Declaration :=
  ⟨"", [], { className := some "Foo", location := .atLine "beans.xml" 3 }⟩

/-- Another one, at a line, that names its factory but no method. -/
def second (line : Nat) : Declaration :=
  ⟨"", [], { factoryBean := some "f", location := .atLine "beans.xml" line }⟩

/-- A bean with a list of both, the second at a line. -/
def owner (line : Nat) : Bean :=
  .named "beans.xml" ⟨"a", [],
    { className := some "Foo", location := .atLine "beans.xml" 2
      properties := [⟨"p", .list [.nested first, .nested (second line)],
        .atLine "beans.xml" 2⟩] }⟩

/-- The config of both beans. -/
def config (line : Nat) : Context :=
  { name := "beans.xml", kind := .config, beans := [factory, owner line] }

/-- The beans of the config, with those nested in them, have identities of their own if the
second nested bean does not start on the line of the first. -/
theorem hasOwnIds (line : Nat) (apart : line ≠ 3) {bs : List Bean}
    (declared : ∀ b ∈ bs, b = factory ∨ b = owner line) : Bean.HasOwnIds bs where
  named := by
    intro b hb
    rcases declared b hb with rfl | rfl
    · exact ⟨_, rfl⟩
    · exact ⟨_, rfl⟩
  distinct := by
    have other : "f" ≠ "a" := by decide
    intro b hb c hc same
    rcases declared b hb with rfl | rfl <;> rcases declared c hc with rfl | rfl
    · rfl
    · exact absurd (BeanId.named.inj same).2 other
    · exact absurd (BeanId.named.inj same).2 other.symm
    · rfl
  lines := by
    have inner : (owner line).inner = [first.innerBean (owner line).id,
        (second line).innerBean (owner line).id] := rfl
    -- No bean but `owner` has beans nested in it.
    have around : ∀ o, Bean.Within bs o → o = owner line ∨ o.inner = [] := by
      intro o within
      induction within with
      | own there =>
        rcases declared _ there with rfl | rfl
        · exact .inr rfl
        · exact .inl rfl
      | inner _ nested ih =>
        rcases ih with rfl | none
        · rw [inner, List.mem_cons, List.mem_singleton] at nested
          rcases nested with rfl | rfl
          · exact .inr rfl
          · exact .inr rfl
        · rw [none] at nested
          cases nested
    intro o within i hi j hj same
    rcases around o within with rfl | none
    · rw [inner, List.mem_cons, List.mem_singleton] at hi hj
      rcases hi with rfl | rfl <;> rcases hj with rfl | rfl
      · rfl
      · exact absurd same.symm apart
      · exact absurd same apart
      · rfl
    · rw [none] at hi
      cases hi

/-- On one line, the second of two inner beans is taken for the first; on lines of their own
they are told apart, and the pass over their config does without memory. -/
theorem answers_ne_and_pass_forgetful :
    ({} : MergeCache).answers (config 3) (owner 3).inner
        ≠ (owner 3).inner.map (merged (config 3)) ∧
      ({} : Validator).pass (fun _ _ => false) (config 4) none (Run.forgetful {})
        = forgetfully Run.forgetful
            (({} : Validator).pass (fun _ _ => false) (config 4) none {}) := by
  constructor
  · intro transparent
    have agree := (remembering_iff _ _).1.1 transparent (first.innerBean (owner 3).id)
      ((second 3).innerBean (owner 3).id) List.mem_cons_self
      (List.mem_cons_of_mem _ List.mem_cons_self) rfl
    rw [merged_of_not_isChild rfl, merged_of_not_isChild rfl] at agree
    cases congrArg Definition.factoryBean agree
  · obtain ⟨-, layout, passes⟩ := remembering_iff (({} : Validator).finalContext (config 4) none)
      ((({} : Validator).finalContext (config 4) none).allBeans ++ (config 4).beans)
    refine passes {} _ (config 4) none {} rfl (layout (hasOwnIds 4 (by decide) ?_))
    intro b hb
    have registered : (({} : Validator).finalContext (config 4) none).allBeans
        = [factory, owner 4] := rfl
    rw [registered] at hb
    rcases List.mem_append.1 hb with there | there
    · simpa using there
    · simpa [config] using there

end Pair

end Validator

end BeanWiring
