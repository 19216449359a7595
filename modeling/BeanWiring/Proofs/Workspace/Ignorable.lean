/-
# Ignorable names in a workspace

The settings of a validation may declare names ignorable.  The findings about a config say of such
a name that no bean has it only where a value mentions the name with the factory mark.

Main statement: `missing_ignorable_iff`.
-/
import BeanWiring.Proofs.Validation.Ignorable
import BeanWiring.Proofs.Workspace.Verdicts

namespace BeanWiring.Workspace

variable {σ : Type} [DocumentSource σ] [FiniteSource σ] {ws : Workspace σ}

/-- **Ignorable names.**  A validation of a config within sets that is never cancelled has findings.
Those of any validation which say of an ignorable name that it is missing are exactly the warnings
about values that mention the name with the factory mark, where neither the marked name is ignored
nor any of the two stands for something.  So no parent, dependency, factory or target of an alias,
and no name as it is in a value, is reported if it is ignorable. -/
theorem missing_ignorable_iff (reachable : FreelyReachable ws) (v : Validator) {config : ConfigId}
    (known : ws.HasConfig config) (sets : List SetId) :
    (∃ ds, ((validateIn v (fun _ _ => false) config sets).run ws).1.findings = some ds) ∧
      ∀ (interrupt : Interrupt) (ds : List Diagnostic),
        ((validateIn v interrupt config sets).run ws).1.findings = some ds →
          ∀ name ∈ v.settings.ignorable, ∀ d, d ∈ ds ∧ d.SaysMissing name ↔
            v.WarnsOfMarked ((scene config sets).run ws).1.config.toContext
              ((scene config sets).run ws).1.sets name d := by
  constructor
  · obtain ⟨views, findings⟩ := findings_validateIn ws v (fun _ _ => false) config sets
    rw [findings]
    exact v.validate_completes _ _ views
  · intro interrupt ds done name ignorable d
    have validated : v.validate interrupt ((readTree config).run ws).1.problems
        ((scene config sets).run ws).1.config.toContext ((scene config sets).run ws).1.sets
          = some ds := done
    have ignored : v.ignores name = true := by simp [Validator.ignores, ignorable]
    have ofDocument : d ∈ ((readTree config).run ws).1.problems → ¬d.SaysMissing name :=
      fun problem => not_saysMissing_of_code
        ((areOfDocuments_readTree reachable known).problems d problem) (by decide)
    constructor
    · rintro ⟨there, tells⟩
      exact ((Validator.mem_validate_missing_iff ignored validated tells).1 there).resolve_left
        fun problem => ofDocument problem tells
    · intro warns
      have tells := warns.saysMissing
      exact ⟨(Validator.mem_validate_missing_iff ignored validated tells).2 (.inr warns), tells⟩

/-! ### A marked name -/

/-- A bean with a value that mentions `host` with the factory mark, and that depends on it. -/
def guest : Declaration :=
  { name := "guest"
    aliases := []
    definition :=
      { className := some "Guest"
        dependsOn := ["host"]
        properties := [⟨"place", .reference "&host" false, .atLine "a.xml" 2⟩]
        location := .atLine "a.xml" 1 } }

/-- A project with a config that declares the bean. -/
def guests : Workspace DocumentStore :=
  let ws : Workspace DocumentStore := { source := {} }
  let ws := (ws.useProject { name := "demo", reader := .scripted [("a.xml", [.bean guest])] }).2
  { ws with source := ws.source.put "a.xml" "" }.addConfigs ⟨0⟩ ["a.xml"]

theorem reachable_guests : Reachable guests := by
  have empty : Reachable ({ source := {} } : Workspace DocumentStore) := .start _
  have used := empty.management
    (.useProject _ "demo" (.scripted [("a.xml", [.bean guest])]) {} {})
  exact (used.content (.documents _ _)).management (.addConfigs _ _ _)

/-- The settings by which `host` is ignorable. -/
def lenient : Validator := { settings := { ignorable := ["host"] } }

/-- Though `host` is ignorable, it is reported, but for the value alone. -/
theorem message_findings_guests : ∃ ds,
    ((validateIn lenient (fun _ _ => false) ⟨0⟩ []).run guests).1.findings = some ds ∧
      (∃ d ∈ ds, d.SaysMissing "host" ∧
        d.message = "Referenced factory bean 'host' not found") ∧
      ∀ d ∈ ds, d.SaysMissing "host" → d.line = 2 := by
  obtain ⟨⟨ds, done⟩, all⟩ := missing_ignorable_iff reachable_guests.freely lenient
    (show guests.HasConfig ⟨0⟩ by decide) []
  have exactly := all _ ds done "host" (List.mem_singleton_self _)
  have warns : lenient.WarnsOfMarked ((scene ⟨0⟩ []).run guests).1.config.toContext
      ((scene ⟨0⟩ []).run guests).1.sets "host"
      (Validator.undefinedFactory (.named "a.xml" guest) 2 "&host") := by
    refine ⟨none, List.mem_singleton_self _, rfl, .named "a.xml" guest, 2, ?_, ?_, ?_, rfl⟩
    · exact .own (List.mem_singleton_self _) List.not_mem_nil rfl
    · exact .property (List.mem_singleton_self _) rfl (List.mem_singleton_self _)
    · exact ⟨by decide, rfl, by decide, rfl⟩
  obtain ⟨there, tells⟩ := (exactly _).2 warns
  refine ⟨ds, done, ⟨_, there, tells, rfl⟩, ?_⟩
  intro d found tells'
  obtain ⟨_, -, -, x, line, checks, mentions, -, rfl⟩ := (exactly d).1 ⟨found, tells'⟩
  have own : x = .named "a.xml" guest := by
    cases checks with
    | own declared => exact List.mem_singleton.1 declared
    | inner declared _ _ within =>
      cases List.mem_singleton.1 declared
      cases within
  subst own
  cases mentions with
  | argument declared => cases declared
  | property declared starts =>
    cases List.mem_singleton.1 declared
    exact starts.symm

end BeanWiring.Workspace
