/-
# Verdicts

What a workspace says of the validation of a config.  In every workspace that can be reached a
config is read, with all its imports, from documents; so the problems among the findings are those
of reading, and the rest is what the validation reports.

Main statements:

* `areOfDocuments_readTree` : a config is read from documents;
* `spares_of_mem_findings` : no finding says of a name with a placeholder that it is missing.
-/
import BeanWiring.Proofs.Validation.Placeholders
import BeanWiring.Proofs.Workspace.Changes
import BeanWiring.Workspace.Validation

namespace BeanWiring

namespace Workspace

variable {σ : Type}

variable [DocumentSource σ]

/-- The findings about a config are those of its validation as it is read. -/
theorem findings_validateIn (ws : Workspace σ) (v : Validator) (interrupt : Interrupt)
    (config : ConfigId) (sets : List SetId) :
    ∃ views, ((validateIn v interrupt config sets).run ws).1.findings
      = v.validate interrupt ((readTree config).run ws).1.problems
          ((readTree config).run ws).1.toContext views :=
  ⟨_, rfl⟩

variable [FiniteSource σ] {ws : Workspace σ}

/-- A config of a workspace is read from documents, with all its imports. -/
theorem areOfDocuments_readTree (reachable : FreelyReachable ws) {id : ConfigId}
    (known : ws.HasConfig id) : ((readTree id).run ws).1.AreOfDocuments := by
  obtain ⟨reads, depth, shown⟩ := shows_readTree reachable.grounded.toWired known
  exact shown.areOfDocuments (reads.wired reachable.grounded.toWired)

/-- **Placeholders.**  A validation of a config within sets that is never cancelled has findings,
and no validation has one which says of a name with a placeholder that it is missing or unfit. -/
theorem spares_of_mem_findings (reachable : FreelyReachable ws) (v : Validator) {config : ConfigId}
    (known : ws.HasConfig config) (sets : List SetId) :
    (∃ ds, ((validateIn v (fun _ _ => false) config sets).run ws).1.findings = some ds) ∧
      ∀ (interrupt : Interrupt) (ds : List Diagnostic),
        ((validateIn v interrupt config sets).run ws).1.findings = some ds →
          ∀ d ∈ ds, d.SparesPlaceholders := by
  constructor
  · obtain ⟨views, findings⟩ := findings_validateIn ws v (fun _ _ => false) config sets
    rw [findings]
    exact v.validate_completes _ _ views
  · intro interrupt ds done d hd
    obtain ⟨views, findings⟩ := findings_validateIn ws v interrupt config sets
    rw [findings] at done
    rcases Validator.spares_of_mem_validate done d hd with problem | spares
    · have code := (areOfDocuments_readTree reachable known).problems d problem
      exact .of_code code (by decide) (by decide) (by decide)
    · exact spares

/-! ### A bean to be completed -/

/-- A bean with placeholders for its class, for a bean that it depends on and for one that it
refers to; it also refers to a bean that is missing. -/
def template : Declaration :=
  { name := "client"
    aliases := []
    definition :=
      { className := some "$\x7bclass\x7d"
        dependsOn := ["$\x7bfirst\x7d"]
        properties := [⟨"servers",
          .list [.reference "$\x7bserver\x7d" false, .reference "missing" false],
          .atLine "a.xml" 2⟩]
        location := .atLine "a.xml" 1 } }

/-- A document with that bean, and with an alias that has a placeholder for its target. -/
def templateReader : DocumentReader :=
  .scripted
    [("a.xml", [.bean template, .aliasing "backup" "$\x7bsecond\x7d" (.atLine "a.xml" 3)])]

/-- A project with the document as its config. -/
def templates : Workspace DocumentStore :=
  let ws : Workspace DocumentStore := { source := {} }
  let ws := (ws.useProject { name := "demo", reader := templateReader }).2
  { ws with source := ws.source.put "a.xml" "" }.addConfigs ⟨0⟩ ["a.xml"]

theorem reachable_templates : Reachable templates := by
  have empty : Reachable ({ source := {} } : Workspace DocumentStore) := .start _
  have used := empty.management (.useProject _ "demo" templateReader {} {})
  exact (used.content (.documents _ _)).management (.addConfigs _ _ _)

/-- The missing bean is the only one that is reported. -/
theorem details_findings_templates : ∃ ds,
    ((validateIn {} (fun _ _ => false) ⟨0⟩ []).run templates).1.findings = some ds ∧
      (∀ d ∈ ds, d.SparesPlaceholders) ∧
      ds.map Diagnostic.details = [[(Diagnostic.subjectKey, "missing")]] := by
  obtain ⟨⟨ds, done⟩, all⟩ := spares_of_mem_findings reachable_templates.freely {}
    (show templates.HasConfig ⟨0⟩ by decide) []
  have details : ((validateIn {} (fun _ _ => false) ⟨0⟩ []).run templates).1.findings.map
      (List.map Diagnostic.details) = some [[(Diagnostic.subjectKey, "missing")]] := rfl
  rw [done] at details
  exact ⟨ds, done, all _ ds done, Option.some.inj details⟩

end Workspace

end BeanWiring
