/-
# Answers by trees

All that a config answers is told by its tree.  So configs with one tree answer alike, be it one
config at different times or two configs of one name.

Main statement: `answersAlike_of_tree`.
-/
import BeanWiring.Proofs.Workspace.Stability

namespace BeanWiring.Workspace

variable {σ : Type} [DocumentSource σ]

/-! ## Alike -/

/-- Whether the answer to a question is told without ids of configs. -/
def ConfigQuery.isByValue {α : Type} : ConfigQuery α → Bool
  | imports => false
  | _ => true

/-- Two configs answer alike, each in its workspace.  Configs that are imported have ids of their
own; what imports lead to is told by trees. -/
structure AnswersAlike (ws : Workspace σ) (c : ConfigId) (ws' : Workspace σ) (c' : ConfigId) :
    Prop where
  answers : ∀ {α : Type} (q : ConfigQuery α), q.isByValue = true →
    ((q.ask c').run ws').1 = ((q.ask c).run ws).1
  imports :
    ((ConfigQuery.imports.ask c').run ws').1.map (Import.mapTarget (ws'.afterReading c').tree)
      = ((ConfigQuery.imports.ask c).run ws).1.map (Import.mapTarget (ws.afterReading c).tree)

variable [FiniteSource σ] {ws ws' : Workspace σ} {id id' : ConfigId}

/-! ## Trees and answers -/

/-- The tree of a config is what is read of it, and the trees of what it imports. -/
theorem tree_eq_mapTargets (wired : ws.Wired) (known : ws.HasConfig id) :
    ws.tree id = ⟨(ws.config id).name,
      ((readConfig id).run ws).1.mapTargets (ws.afterReading id).tree⟩ := by
  have first : Reads ws (ws.afterReading id) := (Reads.refl ws).read id known
  rw [← (foretells_of_reads first wired).tree wired (first.wired wired) known,
    tree_of_read (first.wired wired) (contents_afterReading known),
    (first.toExtends.cells id known).name]

/-- Configs with one tree answer alike. -/
theorem answersAlike_of_tree (wired : ws.Wired) (known : ws.HasConfig id) (wired' : ws'.Wired)
    (known' : ws'.HasConfig id') (same : ws'.tree id' = ws.tree id) :
    AnswersAlike ws id ws' id' := by
  have contents : ((readConfig id').run ws').1.mapTargets (ws'.afterReading id').tree
      = ((readConfig id).run ws).1.mapTargets (ws.afterReading id).tree := by
    rw [tree_eq_mapTargets wired known, tree_eq_mapTargets wired' known'] at same
    exact congrArg ConfigTree.contents same
  constructor
  · intro α q byValue
    by_cases ofTree : q.isOfTree = true
    · obtain ⟨question, listed, answered, ask, -⟩ := q.exists_question σ ofTree
      rw [ask, ask, answer_askTree wired known answered, answer_askTree wired' known' answered,
        same]
    · cases q with
      | imports => cases byValue
      | defaults =>
        have defaults := congrArg Contents.defaults contents
        exact defaults
      | _ => exact absurd rfl ofTree
  · have imports := congrArg Contents.imports contents
    rwa [Contents.imports_mapTargets, Contents.imports_mapTargets] at imports

end BeanWiring.Workspace
