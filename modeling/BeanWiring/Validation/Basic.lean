/-
# Validating a config

A config is validated once for each config set that it belongs to, or on its own if it
belongs to none.  A pass registers the members of the set in order, checks the
declarations of the config when its turn comes, and in the end its references; an
incomplete set leaves references unchecked.

The result lists the problems of the documents first, then what the passes found, each
diagnostic once.
-/
import BeanWiring.Config.Merged
import BeanWiring.Validation.References

namespace BeanWiring

/-- A member of a set, as seen from the config that is validated. -/
inductive SetMember where
  /-- The config itself. -/
  | self
  | other (config : Context)

/-- A config set, as seen from the config that is validated. -/
structure SetView where
  name : String
  settings : SetSettings
  members : List SetMember

namespace Validator

/-- Forgets what belongs to a pass, and starts with an empty registry. -/
def startPass (registry : Registry) (run : Run) : Run :=
  { run with registry, unregistered := [], cache := {} }

/-- Notes that a config or a config set was read. -/
def noteRead (run : Run) : Run := { run with reads := run.reads + 1 }

/-- The first pass over the config. -/
def declarationPass (v : Validator) (interrupt : Interrupt) (set : Option String)
    (config : Context) (run : Run) : Except Run Run := do
  let run ← perform interrupt run (v.declarationTasks set config)
  return registerComponents config run

/-- The second pass over the config. -/
def referencePass (v : Validator) (interrupt : Interrupt) (set : Option String)
    (config : Context) (run : Run) : Except Run Run :=
  perform interrupt run (v.referenceTasks set run.unregistered config)

/-- Goes through the members of a set; the flag tells whether the config was among them. -/
def memberPasses (v : Validator) (interrupt : Interrupt) (set : String) (config : Context)
    (met : Bool) (run : Run) : List SetMember → Except Run (Bool × Run)
  | [] => .ok (met, run)
  | .self :: rest => do
    let run ← v.declarationPass interrupt (some set) config (noteRead run)
    v.memberPasses interrupt set config true run rest
  | .other member :: rest =>
    let run := noteRead run
    v.memberPasses interrupt set config met
      { run with registry := run.registry.registerAll member } rest

/-- Validates the config within a set. -/
def setPass (v : Validator) (interrupt : Interrupt) (config : Context) (set : SetView)
    (run : Run) : Except Run Run := do
  let run ← perform interrupt run [pure ()]
  let registry := Registry.forConfigSet set.name set.settings.allowBeanOverriding
    set.settings.allowAliasOverriding
  let run := startPass registry (noteRead run)
  let (met, run) ← v.memberPasses interrupt set.name config false run set.members
  let run ← if met then pure run else v.declarationPass interrupt (some set.name) config run
  if set.settings.isIncomplete then
    return run
  else
    v.referencePass interrupt (some set.name) config run

/-- Validates the config within sets, one after the other. -/
def setPasses (v : Validator) (interrupt : Interrupt) (config : Context) (run : Run) :
    List SetView → Except Run Run
  | [] => .ok run
  | set :: rest => do
    let run ← v.setPass interrupt config set run
    v.setPasses interrupt config run rest

/-- Validates the config on its own. -/
def ownPass (v : Validator) (interrupt : Interrupt) (config : Context) (run : Run) :
    Except Run Run := do
  let run := startPass (.forConfig config.name) run
  let run ← v.declarationPass interrupt none config run
  v.referencePass interrupt none config run

/-- The run of a validation, or the run as it was when it found itself cancelled. -/
def run (v : Validator) (interrupt : Interrupt) (problems : List Diagnostic) (config : Context)
    (sets : List SetView) : Except Run Run := do
  let start ← perform interrupt {} [pure ()]
  let start := noteRead { start with diagnostics := problems.toArray }
  if sets.isEmpty then
    v.ownPass interrupt config start
  else
    v.setPasses interrupt config start sets

/-- A run as it was at its end, or when it found itself cancelled. -/
def lastState : Except Run Run → Run
  | .ok run => run
  | .error run => run

/-- The diagnostics of a run, each once, or none at all if it was cancelled. -/
def findings : Except Run Run → Option (List Diagnostic)
  | .ok run => some (Keyed.distinct run.diagnostics.toList)
  | .error _ => none

/-- The diagnostics of a validation, or none at all if it was cancelled. -/
def validate (v : Validator) (interrupt : Interrupt) (problems : List Diagnostic)
    (config : Context) (sets : List SetView) : Option (List Diagnostic) :=
  findings (v.run interrupt problems config sets)

end Validator

end BeanWiring
