/-
# Questions to configs and config sets

What can be asked of a config or of a config set.  A config is read as far as the answer
needs, a config set is merged from all its members.
-/
import BeanWiring.Workspace.Sets

namespace BeanWiring

/-- A config or a config set, as something to ask. -/
inductive ContextId where
  | config (id : ConfigId)
  | set (id : SetId)
deriving DecidableEq

/-- The config set, if it is one. -/
def ContextId.set? : ContextId → Option SetId
  | set id => some id
  | config _ => none

namespace Workspace

variable {σ : Type}

/-- Whether a config has been read, or a config set merged. -/
def isPopulated (ws : Workspace σ) : ContextId → Bool
  | .config id => (ws.config id).contents.isSome
  | .set id => (ws.set id).merged.isSome

variable [DocumentSource σ]

/-- Answers a question about names; it tells what the answer needed. -/
def ask {α : Type} (id : ContextId) (question : Context → α × Need) :
    StateM (Workspace σ) α := do
  match id with
  | .config config => askTree config fun tree => question tree.toContext
  | .set set =>
    let name := ((← get).set set).name
    let merged ← readSet set
    return (question (merged.toContext name)).1

/-- Answers a question about the bean that a path leads to.  The question tells the names that
it looks up besides. -/
def askAbout {α : Type} (path : BeanPath) (question : Context → Bean → α × List String)
    (ctx : Context) : Option α × Need :=
  match ctx.select? path with
  | none => (none, .names [path.name])
  | some b =>
    let (answer, asked) := question ctx b
    (some answer, .names (path.name :: asked))

/-- Whether some bean has a class. -/
def hasClass (id : ContextId) (className : String) : StateM (Workspace σ) Bool :=
  match id with
  | .config config =>
    askTree config fun tree => (tree.hasClass className, .className className)
  | .set set => do return (← readSet set).classIndex.hasClass className

/-- The beans of a class. -/
def beansOfClass (id : ContextId) (className : String) : StateM (Workspace σ) (List Bean) :=
  match id with
  | .config config => askTree config fun tree => (tree.beansOfClass className, .everything)
  | .set set => do return (← readSet set).classIndex.beansOf className

/-- The classes that have beans. -/
def beanClasses (id : ContextId) : StateM (Workspace σ) (List String) :=
  match id with
  | .config config => askTree config fun tree => (tree.classes, .everything)
  | .set set => do return (← readSet set).classes

/-- The problems of a config and its imports. -/
def problems (id : ConfigId) : StateM (Workspace σ) (List Diagnostic) :=
  askTree id fun tree => (tree.problems, .everything)

/-- The configs that a set was merged from. -/
def members (id : SetId) : StateM (Workspace σ) (List ConfigId) := do
  return (← readSet id).members

end Workspace

end BeanWiring
