/-
# Validation within sets

A config that is validated within sets has a pass within each of them.  The passes share a run,
but no pass knows what those before it registered, refused or merged.  In its turn among the
members the validated config is registered as every other member is, so the references of all
members are checked against one registry.

Main statements:

* `findings_within_sets` : the findings are the problems of documents, and then what is reported
  within each set alone;
* `registry_within_sets` : validating declarations registers them, and the registry within a set is
  that of all its members.
-/
import BeanWiring.Proofs.Validation.Agreement
import BeanWiring.Proofs.Validation.Independence
import BeanWiring.Proofs.Workspace.Asking
import BeanWiring.Proofs.Workspace.Scenes
import BeanWiring.Proofs.Workspace.Verdicts

namespace BeanWiring.Workspace

variable {σ : Type} [DocumentSource σ]

/-! ## Findings -/

/-- What a validation of its own reports of a config within one set, besides the problems of
documents: the diagnostics in the order in which they are made. -/
def reportsWithin (ws : Workspace σ) (v : Validator) (config : ConfigId) (set : SetId) :
    List Diagnostic :=
  let scene := ((scene config [set]).run ws).1
  let run := v.run (fun _ _ => false) [] scene.config.toContext scene.sets
  (Validator.lastState run).diagnostics.toList

variable [FiniteSource σ] {ws : Workspace σ} {config : ConfigId}

/-- The problems of a config are those of its tree. -/
theorem run_problems (steady : ws.Steady) (known : ws.HasConfig config) :
    ((problems config).run ws).1 = (ws.tree config).problems :=
  answer_askTree steady.toWired known (answeredBy_flatMap Contents.problems)

section Findings

variable {v : Validator} {sets : List SetId}

/-- The validation of a config is that of its tree within the views of the sets. -/
theorem findings_eq_validate (steady : ws.Steady) (known : ws.HasConfig config)
    (interrupt : Interrupt) :
    ((validateIn v interrupt config sets).run ws).1.findings
      = v.validate interrupt ((problems config).run ws).1 (ws.tree config).toContext
          (sets.map (ws.setView config)) := by
  have done : ((validateIn v interrupt config sets).run ws).1.findings =
      let scene := ((scene config sets).run ws).1
      v.validate interrupt scene.config.problems scene.config.toContext scene.sets := rfl
  rw [done, run_scene steady known, run_problems steady known]

/-- The reports within a set are those within the view of the set. -/
theorem reportsWithin_eq (steady : ws.Steady) (known : ws.HasConfig config) (set : SetId) :
    ws.reportsWithin v config set
      = v.reportsWithin (ws.tree config).toContext (ws.setView config set) := by
  rw [reportsWithin, run_scene steady known]
  rfl

/-- A validation that is never cancelled has findings. -/
theorem exists_findings (steady : ws.Steady) (known : ws.HasConfig config) (v : Validator)
    (sets : List SetId) :
    ∃ ds, ((validateIn v (fun _ _ => false) config sets).run ws).1.findings = some ds := by
  rw [findings_eq_validate steady known]
  exact v.validate_completes _ _ _

/-- The findings, set by set. -/
theorem findings_eq_distinct (steady : ws.Steady) (known : ws.HasConfig config)
    (within : sets ≠ []) {interrupt : Interrupt} {ds : List Diagnostic}
    (found : ((validateIn v interrupt config sets).run ws).1.findings = some ds) :
    ds = Keyed.distinct
      (((problems config).run ws).1 ++ sets.flatMap (ws.reportsWithin v config)) := by
  rw [findings_eq_validate steady known] at found
  have reports : ws.reportsWithin v config
      = v.reportsWithin (ws.tree config).toContext ∘ ws.setView config :=
    funext (reportsWithin_eq steady known)
  rw [Validator.validate_eq_some (by simpa using within) found, reports, List.flatMap_map]
  rfl

/-- A diagnostic is found if it is a problem of the config or reported within one of the sets. -/
theorem mem_findings_iff (steady : ws.Steady) (known : ws.HasConfig config)
    (within : sets ≠ []) {interrupt : Interrupt} {ds : List Diagnostic}
    (found : ((validateIn v interrupt config sets).run ws).1.findings = some ds)
    {d : Diagnostic} :
    d ∈ ds ↔
      d ∈ ((problems config).run ws).1 ∨ ∃ set ∈ sets, d ∈ ws.reportsWithin v config set := by
  rw [findings_eq_distinct steady known within found, Keyed.mem_distinct, List.mem_append,
    List.mem_flatMap]

end Findings

/-- **Independent sets.**  A validation of a config within sets that is never cancelled has
findings, and these are the problems of the config and then, set by set, what is reported within
the set alone; each diagnostic counts where it comes first.  In whatever order the sets are, what
is found is what is found within one set or another. -/
theorem findings_within_sets (reachable : FreelyReachable ws) (v : Validator)
    (known : ws.HasConfig config) {sets : List SetId} (within : sets ≠ []) :
    (∃ ds, ((validateIn v (fun _ _ => false) config sets).run ws).1.findings = some ds) ∧
    (∀ (interrupt : Interrupt) (ds : List Diagnostic),
      ((validateIn v interrupt config sets).run ws).1.findings = some ds →
        ds = Keyed.distinct
          (((problems config).run ws).1 ++ sets.flatMap (ws.reportsWithin v config))) ∧
    ∀ order : List SetId, order.Perm sets → ∀ (interrupt : Interrupt) (ds : List Diagnostic),
      ((validateIn v interrupt config order).run ws).1.findings = some ds →
        ∀ d, d ∈ ds ↔ ∃ set ∈ sets, ∃ alone,
          ((validateIn v (fun _ _ => false) config [set]).run ws).1.findings = some alone ∧
            d ∈ alone := by
  have steady := reachable.steady
  refine ⟨exists_findings steady known v sets,
    fun _ _ => findings_eq_distinct steady known within, ?_⟩
  intro order perm interrupt ds found d
  have nonempty : order ≠ [] := by
    rintro rfl
    exact within (List.nil_perm.1 perm)
  have one : ∀ set ds,
      ((validateIn v (fun _ _ => false) config [set]).run ws).1.findings = some ds →
        (d ∈ ds ↔ d ∈ ((problems config).run ws).1 ∨ d ∈ ws.reportsWithin v config set) := by
    intro set ds found
    rw [mem_findings_iff steady known (List.cons_ne_nil set []) found]
    simp
  rw [mem_findings_iff steady known nonempty found]
  constructor
  · rintro (problem | ⟨set, listed, reported⟩)
    · -- The problems of the config are found within every set, so within the first.
      obtain ⟨set, rest, rfl⟩ := List.exists_cons_of_ne_nil within
      obtain ⟨alone, found⟩ := exists_findings steady known v [set]
      exact ⟨set, List.mem_cons_self, alone, found, (one set alone found).2 (.inl problem)⟩
    · obtain ⟨alone, found⟩ := exists_findings steady known v [set]
      exact ⟨set, perm.mem_iff.1 listed, alone, found, (one set alone found).2 (.inr reported)⟩
  · rintro ⟨set, listed, alone, found, here⟩
    rcases (one set alone found).1 here with problem | reported
    · exact .inl problem
    · exact .inr ⟨set, perm.mem_iff.2 listed, reported⟩

/-! ### One bean in two configs -/

/-- A bean that both documents declare. -/
def sharedBean : Event :=
  .bean
    { name := "shared"
      aliases := []
      definition := { className := some "Shared", location := .unknown "" } }

/-- Two documents with that bean. -/
def sharedReader : DocumentReader :=
  .scripted [("a.xml", [sharedBean]), ("b.xml", [sharedBean])]

/-- Adds a set with both configs to the project. -/
def withPair (ws : Workspace DocumentStore) (name : String) : Workspace DocumentStore :=
  match ws.addSet ⟨0⟩ name with
  | .ok (id, ws) => ((ws.addMember id "a.xml").2.addMember id "b.xml").2
  | .error _ => ws

theorem Reachable.withPair {ws : Workspace DocumentStore} (h : Reachable ws) (name : String) :
    Reachable (ws.withPair name) := by
  unfold Workspace.withPair
  split
  · rename_i id ws' done
    exact ((h.management (.addSet done)).content (.addMember ws' id "a.xml")).content
      (.addMember _ id "b.xml")
  · exact h

/-- A project with both documents as configs. -/
def sharing : Workspace DocumentStore :=
  let ws : Workspace DocumentStore := { source := {} }
  let ws := (ws.useProject { name := "demo", reader := sharedReader }).2
  { ws with source := (ws.source.put "a.xml" "").put "b.xml" "" }.addConfigs ⟨0⟩
    ["a.xml", "b.xml"]

theorem reachable_sharing : Reachable sharing := by
  have empty : Reachable ({ source := {} } : Workspace DocumentStore) := .start _
  have used := empty.management (.useProject _ "demo" sharedReader {} {})
  exact (used.content (.documents _ _)).management (.addConfigs _ _ _)

/-- The project has two sets of them.  The first allows no bean to be overridden. -/
def contested : Workspace DocumentStore :=
  ((sharing.withPair "strict").withPair "open").allowBeanOverriding ⟨0⟩ false

theorem reachable_contested : Reachable contested :=
  ((reachable_sharing.withPair "strict").withPair "open").content (.allowBeanOverriding _ _ _)

/-- Within the first set the bean of the second config overrides another.  That its class is not
found is reported within both sets, and counts once. -/
theorem codes_findings_contested : ∃ ds,
    ((validateIn {} (fun _ _ => false) ⟨1⟩ [⟨0⟩, ⟨1⟩]).run contested).1.findings = some ds ∧
      ds = Keyed.distinct (((problems ⟨1⟩).run contested).1 ++
        [⟨0⟩, ⟨1⟩].flatMap (contested.reportsWithin {} ⟨1⟩)) ∧
      ds.map Diagnostic.code = [some "BEAN_OVERRIDE", some "CLASS_NOT_FOUND"] ∧
      (contested.reportsWithin {} ⟨1⟩ ⟨1⟩).map Diagnostic.code = [some "CLASS_NOT_FOUND"] := by
  obtain ⟨⟨ds, found⟩, apart, -⟩ := findings_within_sets reachable_contested.freely {}
    (show contested.HasConfig ⟨1⟩ by decide) (List.cons_ne_nil (⟨0⟩ : SetId) [⟨1⟩])
  have codes : ((validateIn {} (fun _ _ => false) ⟨1⟩ [⟨0⟩, ⟨1⟩]).run contested).1.findings.map
      (List.map Diagnostic.code) = some [some "BEAN_OVERRIDE", some "CLASS_NOT_FOUND"] := by
    decide +kernel
  rw [found] at codes
  exact ⟨ds, found, apart _ ds found, Option.some.inj codes, by decide +kernel⟩

/-! ## Registries -/

/-- The registry of a set: what its members declare, registered in order. -/
def registryOf (ws : Workspace σ) (set : SetId) : Registry :=
  let cell := ws.set set
  let declared := ((members set).run ws).1.map fun m => ((readTree m).run ws).1.toContext
  declared.foldl Registry.registerAll
    (.forConfigSet cell.name cell.settings.allowBeanOverriding cell.settings.allowAliasOverriding)

omit [FiniteSource σ] in
/-- Seen from any config, the members of a set declare what they declare. -/
theorem contexts_setView (ws : Workspace σ) (config : ConfigId) (set : SetId) :
    (ws.setView config set).members.map (·.context (ws.tree config).toContext)
      = (ws.membersOf set).map fun m => (ws.tree m).toContext := by
  rw [setView, List.map_map]
  refine List.map_congr_left fun member _ => ?_
  rw [Function.comp_apply, memberView]
  split
  · rename_i self
    rw [self]
    rfl
  · rfl

omit [FiniteSource σ] in
/-- A member of a set is seen as such in the view of the set. -/
theorem self_mem_setView {set : SetId} (member : config ∈ ws.membersOf set) :
    .self ∈ (ws.setView config set).members :=
  List.mem_map.2 ⟨config, member, if_pos rfl⟩

/-- **Registration.**  To validate the declarations of a config is to register them: whatever the
registry holds and allows, it ends up as if the config had been registered.  A check of references
leaves the registry alone, however far it gets.  So within a set all members are checked against
the registry of the set, whichever of them is validated. -/
theorem registry_within_sets (reachable : FreelyReachable ws) (v : Validator)
    (known : ws.HasConfig config) :
    let declared := ((readTree config).run ws).1.toContext
    (∀ (set : Option String) (run : Run),
      (∃ run', v.declarationPass (fun _ _ => false) set declared run = .ok run') ∧
      ∀ (interrupt : Interrupt) (run' : Run),
        v.declarationPass interrupt set declared run = .ok run' →
          run'.registry = run.registry.registerAll declared) ∧
    (∀ (set : Option String) (refused : List BeanId) (tasks : List (Check Unit)),
      tasks ⊆ v.referenceTasks set refused declared → ∀ (interrupt : Interrupt) (run : Run),
        (Validator.lastState (perform interrupt run tasks)).registry = run.registry) ∧
    ∀ sets : List SetId, List.Forall₂ (fun set view =>
      config ∈ ((members set).run ws).1 → ∀ run : Run,
        (∃ run', v.setPass (fun _ _ => false) declared view run = .ok run') ∧
        ∀ (interrupt : Interrupt) (run' : Run),
          v.setPass interrupt declared view run = .ok run' → run'.registry = ws.registryOf set)
      sets ((scene config sets).run ws).1.sets := by
  have steady := reachable.steady
  have named : ∀ b ∈ (ws.tree config).toContext.beans, b.isInner = false := fun b hb =>
    ((areOfDocuments_readTree reachable known).areTopLevel.beans b hb).isInner
  refine ⟨fun set run => ?_, fun _ _ _ among _ _ => ?_, fun sets => ?_⟩
  · exact ⟨Validator.declarationPass_completes v _ set run,
      fun _ _ => Validator.registry_of_declarationPass named⟩
  · exact Validator.registry_of_referenceTasks among
  · rw [run_scene steady known, List.forall₂_map_right_iff, List.forall₂_same]
    intro set _ member run
    refine ⟨Validator.pass_completes v _ (some _) run, fun interrupt run' done => ?_⟩
    rw [Validator.registry_of_setPass named (self_mem_setView member) done, contexts_setView]
    rfl

/-- Whichever config is validated within the first set, the registry has the bean of the first. -/
theorem registry_contested : ∃ view view' run run',
    ((scene ⟨0⟩ [⟨0⟩]).run contested).1.sets = [view] ∧
      ((scene ⟨1⟩ [⟨0⟩]).run contested).1.sets = [view'] ∧
      ({} : Validator).setPass (fun _ _ => false)
        ((readTree ⟨0⟩).run contested).1.toContext view {} = .ok run ∧
      ({} : Validator).setPass (fun _ _ => false)
        ((readTree ⟨1⟩).run contested).1.toContext view' {} = .ok run' ∧
      run'.registry = run.registry ∧ run.registry.beans.map Bean.resource = ["a.xml"] := by
  obtain ⟨-, -, first⟩ := registry_within_sets reachable_contested.freely {}
    (show contested.HasConfig ⟨0⟩ by decide)
  obtain ⟨-, -, second⟩ := registry_within_sets reachable_contested.freely {}
    (show contested.HasConfig ⟨1⟩ by decide)
  obtain ⟨view, rest, here, none, seen⟩ := List.forall₂_cons_left_iff.1 (first [⟨0⟩])
  obtain ⟨view', rest', here', none', seen'⟩ := List.forall₂_cons_left_iff.1 (second [⟨0⟩])
  cases List.forall₂_nil_left_iff.1 none
  cases List.forall₂_nil_left_iff.1 none'
  obtain ⟨⟨run, done⟩, registry⟩ := here (by decide +kernel) {}
  obtain ⟨⟨run', done'⟩, registry'⟩ := here' (by decide +kernel) {}
  refine ⟨view, view', run, run', seen, seen', done, done', ?_, ?_⟩
  · rw [registry _ run done, registry' _ run' done']
  · rw [registry _ run done]
    decide +kernel

end BeanWiring.Workspace
