/-
# What documents say

Whatever a document says, its config declares only beans that are identified by their names,
and notes no problems but those of reading it.

Main statement: `isOfDocument_readContents`, that this is so of everything that is read.
-/
import BeanWiring.Proofs.Config.TopLevel

namespace BeanWiring

namespace Contents

variable {C : Type} {s : Surroundings}

/-- What holds of the contents of any document. -/
structure IsOfDocument (c : Contents C) : Prop extends c.AreTopLevel where
  problems : ∀ d ∈ c.problems, d.code = some "PARSING_FAILED"

/-! ## Problems -/

/-- A problem that is shown is one of parsing. -/
theorem code_shown {p : Problem} : ∀ d ∈ p.shown, d.code = some "PARSING_FAILED" := by
  unfold Problem.shown
  split
  · exact List.forall_mem_nil _
  · exact List.forall_mem_singleton.2 rfl

/-- So are all problems that events leave. -/
theorem code_notes (event : Event) : ∀ d ∈ s.notes event, d.code = some "PARSING_FAILED" := by
  cases event with
  | importing resource location =>
    rw [Surroundings.notes]
    split
    · exact List.forall_mem_nil _
    · split
      · exact code_shown
      · split
        · exact code_shown
        · exact List.forall_mem_nil _
  | problem p => exact code_shown
  | fatal p => exact code_shown
  | defaults _ | bean _ | aliasing _ _ _ | component _ => exact List.forall_mem_nil _

/-! ## Documents -/

/-- Whatever a document says next, its contents are those of a document. -/
theorem IsOfDocument.addEvent {c : Contents String} (h : c.IsOfDocument) (event : Event) :
    (c.addEvent s event).IsOfDocument := by
  refine ⟨h.toAreTopLevel.addEvent event, ?_⟩
  rw [(addEvent_adds event).2]
  exact List.forall_mem_append.2 ⟨h.problems, code_notes event⟩

/-- All that a document says makes the contents of a document. -/
theorem IsOfDocument.foldl_addEvent {c : Contents String} (h : c.IsOfDocument)
    (events : List Event) : (events.foldl (Contents.addEvent s) c).IsOfDocument := by
  induction events generalizing c with
  | nil => exact h
  | cons event rest ih => exact ih (h.addEvent event)

/-- This is so of everything that is read. -/
theorem isOfDocument_readContents {σ : Type} [DocumentSource σ] (reader : DocumentReader)
    (source : σ) (s : Surroundings) : (readContents reader source s).IsOfDocument := by
  rw [readContents_eq_foldl]
  refine IsOfDocument.foldl_addEvent ?_ _
  exact ⟨⟨List.forall_mem_nil _, List.forall_mem_nil _⟩, List.forall_mem_nil _⟩

/-- What imports lead to does not matter. -/
theorem IsOfDocument.withTargets {D : Type} {c : Contents C} (h : c.IsOfDocument)
    (targets : List (Option D)) : (c.withTargets targets).IsOfDocument :=
  ⟨⟨h.beans, h.components⟩, h.problems⟩

end Contents

/-! ## Configs -/

namespace ConfigTree

/-- Of the config and of its imports. -/
def AreOfDocuments (t : ConfigTree) : Prop :=
  ∀ node ∈ t.nodes, node.contents.IsOfDocument

variable {t : ConfigTree}

/-- What was read from documents has beans with names of their own. -/
theorem AreOfDocuments.areTopLevel (h : t.AreOfDocuments) : t.AreTopLevel :=
  fun node there => (h node there).toAreTopLevel

/-- The problems of a tree read from documents are problems of parsing. -/
theorem AreOfDocuments.problems (h : t.AreOfDocuments) :
    ∀ d ∈ t.problems, d.code = some "PARSING_FAILED" := by
  intro d hd
  obtain ⟨node, there, hd⟩ := List.mem_flatMap.1 hd
  exact (h node there).problems d hd

end ConfigTree

/-! ## Merged sets -/

/-- The view was merged, by some settings, from configs that were read from documents. -/
def MergedSet.IsOfDocuments {C : Type} (settings : SetSettings) (m : MergedSet C) : Prop :=
  ∃ trees : List (C × ConfigTree), (∀ t ∈ trees, t.2.AreOfDocuments) ∧ m = .ofMembers settings trees

end BeanWiring
