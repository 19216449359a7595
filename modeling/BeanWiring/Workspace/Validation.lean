/-
# Validation in a workspace

Configs are validated as they are when everything they need has been read.  A validation
that is cancelled leaves those configs unread that it had not come to.
-/
import BeanWiring.Validation.Basic
import BeanWiring.Workspace.Projects
import BeanWiring.Workspace.Query

namespace BeanWiring

/-- What came of a validation, and the questions that it asked of the type index. -/
structure Verdict (α : Type) where
  /-- The findings, unless the validation was cancelled. -/
  findings : Option α
  questions : List TypeQuestion

/-- Everything that the validation of a config looks at, in the order in which it reads. -/
structure Scene where
  config : ConfigTree
  sets : List SetView
  reads : List ContextId

namespace Workspace

variable {σ : Type} [DocumentSource σ]

/-! ## Setting the scene -/

/-- Reads a config or a config set. -/
def populate : ContextId → StateM (Workspace σ) Unit
  | .config id => do
    let _ ← readTree id
  | .set id => do
    let _ ← readSet id

/-- A member of a set as seen from a config. -/
def viewMember (config member : ConfigId) : StateM (Workspace σ) SetMember := do
  if member = config then
    return .self
  else
    return .other (← readTree member).toContext

/-- A config set as seen from a config, and what is read to see it. -/
def viewSet (config : ConfigId) (set : SetId) :
    StateM (Workspace σ) (SetView × List ContextId) := do
  let cell := (← get).set set
  let merged ← readSet set
  let members ← merged.members.mapM (viewMember config)
  return (⟨cell.name, cell.settings, members⟩,
    .set set :: merged.members.map ContextId.config)

/-- What the validation of a config within sets looks at. -/
def scene (config : ConfigId) (sets : List SetId) : StateM (Workspace σ) Scene := do
  let tree ← readTree config
  let views ← sets.mapM (viewSet config)
  return ⟨tree, views.map Prod.fst, .config config :: views.flatMap Prod.snd⟩

/-! ## Validating -/

/-- Validates a config within sets. -/
def validateIn (v : Validator) (interrupt : Interrupt) (config : ConfigId)
    (sets : List SetId) : StateM (Workspace σ) (Verdict (List Diagnostic)) := do
  let (scene, _) := (scene config sets).run (← get)
  let outcome := v.run interrupt scene.config.problems scene.config.toContext scene.sets
  let run := Validator.lastState outcome
  (scene.reads.take run.reads).forM populate
  return ⟨Validator.findings outcome, run.questions.toList⟩

/-- Validates a config within the sets of a project that have it as a member. -/
def validateConfig (v : Validator) (interrupt : Interrupt) (project : ProjectId)
    (config : ConfigId) : StateM (Workspace σ) (Verdict (List Diagnostic)) := do
  let sets := (← get).setsWith project ((← get).config config).name
  let v := { v with scope := ((← get).project project).name }
  validateIn v interrupt config sets

/-- Validates configs of a project one after the other.  If one validation is cancelled, so
are all; types looked up for one config count for the next. -/
def validateConfigs (v : Validator) (interrupt : Interrupt) (project : ProjectId) :
    List ConfigId → StateM (Workspace σ) (Verdict (List (String × List Diagnostic)))
  | [] => return ⟨some [], []⟩
  | config :: rest => do
    let name := ((← get).config config).name
    let first ← validateConfig v interrupt project config
    let before := first.questions.countP TypeQuestion.isLookup
    match first.findings with
    | none => return ⟨none, first.questions⟩
    | some diagnostics =>
      let others ← validateConfigs v (fun polls lookups => interrupt polls (before + lookups))
        project rest
      return ⟨others.findings.map ((name, diagnostics) :: ·),
        first.questions ++ others.questions⟩

/-- Validates all configs of a project. -/
def validateProject (v : Validator) (interrupt : Interrupt) (project : ProjectId) :
    StateM (Workspace σ) (Verdict (List (String × List Diagnostic))) := do
  validateConfigs v interrupt project ((← get).configsOf project)

end Workspace

end BeanWiring
