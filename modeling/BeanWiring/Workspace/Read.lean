/-
# Reading configs

A config is read when a question needs it, and stays as read until it is reloaded.
Reading makes new configs for the imports, which are read in turn when they are
needed.

Questions are answered from the tree of a config as it is after everything has been
read.  Afterwards only as many configs count as read as the question needed, in the
order of the tree.  A tree can be far larger than what a question needs, so the first
configs of the tree are tried before all of it.
-/
import BeanWiring.Reference.Walk
import BeanWiring.Workspace.Basic

namespace BeanWiring

/-- What a question needs to be answered. -/
inductive Need where
  | everything
  /-- Look-ups of names. -/
  | names (asked : List String)
  | bean (name : String)
  | aliasing (name : String)
  | className (name : String)

namespace Need

/-- How many configs of a tree are read for a need. -/
def reach (tree : ConfigTree) : Need → Nat
  | everything => tree.size
  | names asked => tree.resolveReach asked
  | bean name => tree.beanReach name
  | aliasing name => tree.aliasReach name
  | className name => tree.classReach name

/-- Whether a need is met by the first configs of a tree, whatever the others say. -/
def isMetBy (tree : ConfigTree) : Need → Bool
  | everything => false
  | names asked => asked.all fun name => (tree.bean? name).isSome
  | bean name => (tree.bean? name).isSome
  | aliasing name => (tree.aliasOf? name).isSome
  | className name => tree.hasClass name

end Need

namespace Workspace

variable {σ : Type} [DocumentSource σ]

/-! ## One config -/

/-- What the reading of a config depends on. -/
def surroundings (ws : Workspace σ) (cell : ConfigCell) : Contents.Surroundings :=
  { name := cell.name
    chain := cell.chain
    importsEnabled := (ws.project cell.project).settings.importsEnabled
    namespaces := (ws.project cell.project).namespaces
    documentExists := DocumentSource.has ws.source }

/-- What the document of a config says now. -/
def currentContents (ws : Workspace σ) (cell : ConfigCell) : Contents String :=
  readContents (ws.project cell.project).reader ws.source (ws.surroundings cell)

/-- The config that an import of `cell` makes. -/
def importedCell (cell : ConfigCell) (name : String) : ConfigCell :=
  { name
    origin := .imported cell.name
    project := cell.project
    chain := cell.chain ++ [cell.name] }

/-- Gives the configs that imports lead to the next ids. -/
def numberTargets (next : Nat) : List (Option String) → List (Option ConfigId)
  | [] => []
  | none :: rest => none :: numberTargets next rest
  | some _ :: rest => some ⟨next⟩ :: numberTargets (next + 1) rest

/-- Reads a config, unless it has been read. -/
def readConfig (id : ConfigId) : StateM (Workspace σ) (Contents ConfigId) := fun ws =>
  let cell := ws.config id
  match cell.contents with
  | some contents => (contents, ws)
  | none =>
    let named := ws.currentContents cell
    let contents := named.withTargets
      (numberTargets ws.configs.size (named.imports.map Import.target))
    let made := { ws with
      configs := ws.configs ++ named.importedConfigs.map (importedCell cell) }
    (contents, made.updateConfig id fun cell => { cell with contents := some contents })

/-- The config reached by positions: each of them picks an import of the one before. -/
def importAt? : (positions : List Nat) → ConfigId → StateM (Workspace σ) (Option ConfigId)
  | [], id => return some id
  | i :: rest, id => do
    let contents ← readConfig id
    match contents.imports[i]?.bind Import.target with
    | some next => importAt? rest next
    | none => return none

/-! ## Trees of configs -/

/-- Reads a config with its imports down to a depth. -/
def readWithin : (depth : Nat) → ConfigId → StateM (Workspace σ) ConfigTree
  | 0, id => return ⟨((← get).config id).name, {}⟩
  | depth + 1, id => do
    let name := ((← get).config id).name
    let contents ← readConfig id
    let targets ← (contents.imports.map Import.target).mapM fun target =>
      target.mapM (readWithin depth)
    return ⟨name, contents.withTargets targets⟩

/-- No chain of imports below a config is deeper: those that are not read yet lead to
documents that all have different names. -/
def depthBound (ws : Workspace σ) (id : ConfigId) : Nat :=
  ws.configs.size + DocumentSource.reach ws.source (ws.config id).name + 2

/-- Reads a config with all its imports. -/
def readTree (id : ConfigId) : StateM (Workspace σ) ConfigTree := do
  readWithin ((← get).depthBound id) id

/-- Reads a config with its imports down to a depth, as long as there is room for configs.
Those that there is no room for are missing in the tree. -/
def readPart : (depth : Nat) → ConfigId →
    StateT Nat (StateM (Workspace σ)) (Option ConfigTree)
  | 0, _ => return none
  | depth + 1, id => fun room => do
    match room with
    | 0 => return (none, 0)
    | room + 1 =>
      let name := ((← get).config id).name
      let contents ← readConfig id
      let (targets, left) ← ((contents.imports.map Import.target).mapM fun target =>
        match target with
        | some target => readPart depth target
        | none => return none).run room
      return (some ⟨name, contents.withTargets targets⟩, left)

/-- Reads the first `count` configs of the trees of some configs. -/
def readFirst : (count : Nat) → List ConfigId → StateM (Workspace σ) Unit
  | 0, _ => return
  | _ + 1, [] => return
  | count + 1, id :: rest => do
    let contents ← readConfig id
    readFirst count (contents.importedConfigs ++ rest)

/-! ## Questions -/

/-- The answer to a question about the tree of a config from the first `room` configs of the
tree, if they are all or meet the need, and how many of them it needs. -/
def answerWithin {α : Type} (ws : Workspace σ) (id : ConfigId)
    (question : ConfigTree → α × Need) (room : Nat) : Option (α × Nat) :=
  match ((readPart (ws.depthBound id) id).run room).run ws with
  | ((none, _), _) => none
  | ((some tree, left), _) =>
    let (answer, need) := question tree
    if 0 < left || need.isMetBy tree then some (answer, need.reach tree) else none

/-- The answer to a question about the tree of a config, and how many configs it needs. -/
def answerFromAll {α : Type} (ws : Workspace σ) (id : ConfigId)
    (question : ConfigTree → α × Need) : α × Nat :=
  let (tree, _) := (readTree id).run ws
  let (answer, need) := question tree
  (answer, need.reach tree)

/-- How many configs of a tree are tried before all of it. -/
def trialRooms : List Nat := [64, 1024, 16384]

/-- Answers a question about the tree of a config, and reads what it needs. -/
def askTree {α : Type} (id : ConfigId) (question : ConfigTree → α × Need) :
    StateM (Workspace σ) α := do
  let ws ← get
  let (answer, reach) :=
    match trialRooms.findSome? (ws.answerWithin id question) with
    | some answered => answered
    | none => ws.answerFromAll id question
  readFirst reach [id]
  return answer

/-! ## Changes -/

/-- Whether a document that was read for a config, or for its imports down to a depth, has
another stamp now. -/
def hasChangedWithin (ws : Workspace σ) : (depth : Nat) → ConfigId → Bool
  | 0, _ => false
  | depth + 1, id =>
    match (ws.config id).contents with
    | none => false
    | some contents =>
      DocumentSource.stamp? ws.source (ws.config id).name ≠ contents.stamp ||
        contents.importedConfigs.any (ws.hasChangedWithin depth)

/-- Whether a document that was read for a config or for its imports has changed. -/
def hasChanged (ws : Workspace σ) (id : ConfigId) : Bool :=
  ws.hasChangedWithin (ws.depthBound id) id

end Workspace

end BeanWiring
