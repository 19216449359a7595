/-
# Beans of documents

Whatever a document says, every bean that it declares on its own or inside a component is
identified by the document and its name.  Configs, config sets and registries hold no other
beans, so names and identities of their beans go together.

Main statements:

* `AreTopLevel.addEvent` : what a document says adds only beans that are identified by their names;
* `Context.isNamed_of_trees` : in a context that keeps no beans but those of configs, names and
  identities go together.
-/
import BeanWiring.Config.Merged
import BeanWiring.Proofs.Config.Imports
import BeanWiring.Proofs.Lookup.Names

namespace BeanWiring

/-- The bean is identified by a resource and its own name. -/
def Bean.IsTopLevel (b : Bean) : Prop := ∃ resource d, b = .named resource d

/-- A bean with a name of its own is no inner bean. -/
theorem Bean.IsTopLevel.isInner {b : Bean} (h : b.IsTopLevel) : b.isInner = false := by
  obtain ⟨_, _, rfl⟩ := h
  rfl

/-- The identity of such a bean is made of its resource and its name. -/
theorem Bean.IsTopLevel.id_eq {b : Bean} (h : b.IsTopLevel) :
    ∃ resource, b.id = .named resource b.name := by
  obtain ⟨resource, _, rfl⟩ := h
  exact ⟨resource, rfl⟩

/-! ## Components -/

mutual

/-- The beans of a component have names of their own. -/
theorem isTopLevel_ofDeclaration (resource : String) : (d : ComponentDeclaration) →
    ∀ b ∈ (Component.ofDeclaration resource d).allBeans, b.IsTopLevel
  | ⟨name, uri, attributes, beans, nested, location⟩ => by
    intro b hb
    rw [Component.ofDeclaration, Component.allBeans] at hb
    rcases List.mem_append.1 hb with own | inside
    · obtain ⟨d, -, rfl⟩ := List.mem_map.1 own
      exact ⟨resource, d, rfl⟩
    · exact isTopLevel_componentsOf resource nested b inside

/-- So have those of several components. -/
theorem isTopLevel_componentsOf (resource : String) : (ds : List ComponentDeclaration) →
    ∀ b ∈ beansOfComponents (componentsOf resource ds), b.IsTopLevel
  | [] => by
    intro b hb
    cases hb
  | d :: ds => by
    intro b hb
    rw [componentsOf, beansOfComponents] at hb
    rcases List.mem_append.1 hb with first | later
    · exact isTopLevel_ofDeclaration resource d b first
    · exact isTopLevel_componentsOf resource ds b later

end

/-! ## Documents -/

namespace Contents

variable {C : Type} {s : Surroundings}

/-- All beans, those of components included, are identified by their names. -/
structure AreTopLevel (c : Contents C) : Prop where
  beans : ∀ b ∈ c.beans, b.IsTopLevel
  components : ∀ b ∈ beansOfComponents c.components, b.IsTopLevel

/-- A declared bean is identified by its name. -/
theorem AreTopLevel.addBean {c : Contents C} (h : c.AreTopLevel) (resource : String)
    (d : Declaration) : (c.addBean resource d).AreTopLevel := by
  refine ⟨?_, h.components⟩
  intro b hb
  -- Where the name is taken, nothing is added.
  rw [Contents.addBean, Keyed.putNew] at hb
  split at hb
  · exact h.beans b hb
  · rcases List.mem_append.1 hb with before | new
    · exact h.beans b before
    · exact ⟨resource, d, List.mem_singleton.1 new⟩

/-- Problems bring no beans. -/
theorem AreTopLevel.addProblem {c : Contents C} (h : c.AreTopLevel) (p : Problem) :
    (c.addProblem p).AreTopLevel := by
  unfold Contents.addProblem
  split
  · exact h
  · exact ⟨h.beans, h.components⟩

/-- Imports bring no beans of the document's own. -/
theorem AreTopLevel.addImport {c : Contents String} (h : c.AreTopLevel) (resource : String)
    (location : Location) : (c.addImport s resource location).AreTopLevel := by
  rw [addImport_eq]
  exact ⟨h.beans, h.components⟩

/-- A component brings beans that are identified by their names. -/
theorem AreTopLevel.addComponent {c : Contents C} (h : c.AreTopLevel) (resource : String)
    (d : ComponentDeclaration) :
    ({ c with
      components := c.components ++ [Component.ofDeclaration resource d] }).AreTopLevel := by
  refine ⟨h.beans, ?_⟩
  intro b hb
  rw [beansOfComponents_eq_flatMap, List.flatMap_append, List.flatMap_singleton,
    ← beansOfComponents_eq_flatMap] at hb
  rcases List.mem_append.1 hb with before | new
  · exact h.components b before
  · exact isTopLevel_ofDeclaration resource d b new

/-- Whatever a document says next, its beans are identified by their names. -/
theorem AreTopLevel.addEvent {c : Contents String} (h : c.AreTopLevel) (event : Event) :
    (c.addEvent s event).AreTopLevel := by
  cases event with
  | defaults _ => exact ⟨h.beans, h.components⟩
  | aliasing _ _ _ => exact ⟨h.beans, h.components⟩
  | bean d => exact h.addBean s.name d
  | importing resource location => exact h.addImport resource location
  | problem p => exact h.addProblem p
  | fatal p => exact h.addProblem p
  | component d =>
    rw [Contents.addEvent]
    -- An element of another namespace counts as what it is interpreted as.
    cases s.namespaces.interpret d with
    | nothing => exact h
    | bean d => exact h.addBean s.name d
    | component d => exact h.addComponent s.name d

end Contents

/-! ## Configs -/

namespace ConfigTree

/-- The beans of a config and of its imports are identified by their names. -/
def AreTopLevel (t : ConfigTree) : Prop :=
  ∀ node ∈ t.nodes, node.contents.AreTopLevel

variable {t : ConfigTree}

/-- The beans that a config answers with are identified by their names. -/
theorem AreTopLevel.beans (h : t.AreTopLevel) : ∀ b ∈ t.beans, b.IsTopLevel := by
  intro b hb
  obtain ⟨node, there, hb⟩ := List.mem_flatMap.1 hb
  exact (h node there).beans b hb

/-- So are the beans of its components. -/
theorem AreTopLevel.components (h : t.AreTopLevel) :
    ∀ b ∈ beansOfComponents t.components, b.IsTopLevel := by
  intro b hb
  rw [beansOfComponents_eq_flatMap, ConfigTree.components, List.flatMap_assoc] at hb
  obtain ⟨node, there, hb⟩ := List.mem_flatMap.1 hb
  exact (h node there).components b (by rwa [beansOfComponents_eq_flatMap])

end ConfigTree

namespace Context

/-- In a context that keeps some beans of configs and all their components, names and identities
of beans go together. -/
theorem isNamed_of_trees {ctx : Context} (trees : List ConfigTree)
    (topLevel : ∀ t ∈ trees, t.AreTopLevel) (beans : ∀ b ∈ ctx.beans, ∃ t ∈ trees, b ∈ t.beans)
    (components : ctx.components = trees.flatMap ConfigTree.components) : ctx.IsNamed := by
  intro b among
  rcases List.mem_append.1 among with own | inside
  · obtain ⟨t, listed, there⟩ := beans b own
    exact ((topLevel t listed).beans b there).id_eq
  · rw [components, beansOfComponents_eq_flatMap, List.flatMap_assoc] at inside
    obtain ⟨t, listed, there⟩ := List.mem_flatMap.1 inside
    rw [← beansOfComponents_eq_flatMap] at there
    exact ((topLevel t listed).components b there).id_eq

end Context

end BeanWiring
