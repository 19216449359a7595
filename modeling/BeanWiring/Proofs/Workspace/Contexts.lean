/-
# Contexts of a workspace

A workspace looks names up in its configs, in what its sets were merged to, and in the registries
that a validation fills within its sets.  None of them keeps a bean that is not one of a document or
of a component in it, whatever has been done, so names and identities of their beans go together.
What walks along references say of contexts of this kind, they say of the workspace.

Main statements:

* `isNamed_of_looksUpIn` : names and identities go together wherever names are looked up;
* `references_of_looksUpIn` : what this means for references.
-/
import BeanWiring.Proofs.Reference.Members
import BeanWiring.Proofs.Workspace.Views
import BeanWiring.Proofs.Workspace.WithinSets

namespace BeanWiring

/-! ## Merged sets and registries -/

/-- A set that was merged from documents keeps only beans of theirs. -/
theorem MergedSet.IsOfDocuments.isNamed {C : Type} {settings : SetSettings} {m : MergedSet C}
    (h : m.IsOfDocuments settings) (name : String) : (m.toContext name).IsNamed := by
  obtain ⟨trees, documents, rfl⟩ := h
  refine Context.isNamed_of_trees (trees.map Prod.snd) ?_ ?_ ?_
  · rw [List.forall_mem_map]
    exact fun t listed => (documents t listed).areTopLevel
  · intro b listed
    have among := (followsPolicy_beans settings trees).mem_of_mem listed
    rwa [← List.mem_flatMap, List.flatMap_map]
  · rw [List.flatMap_map]
    exact components_ofMembers settings trees

/-- So does a registry that trees were registered in. -/
theorem Registry.isNamed_registerAll {trees : List ConfigTree} {r : Registry}
    (none : r.beans = []) (empty : r.components = []) (documents : ∀ t ∈ trees, t.AreOfDocuments) :
    ((trees.map ConfigTree.toContext).foldl registerAll r).toContext.IsNamed := by
  rw [registerAll_foldl, none, empty]
  refine Context.isNamed_of_trees trees (fun t listed => (documents t listed).areTopLevel) ?_ ?_
  · intro b listed
    have among := (Keyed.followsPolicy_foldl r.allowBeanOverriding Bean.name _).mem_of_mem listed
    rwa [List.flatMap_map, List.mem_flatMap] at among
  · show [] ++ (trees.map ConfigTree.toContext).flatMap Context.components = _
    rw [List.nil_append, List.flatMap_map]
    rfl

namespace Workspace

variable {σ : Type} [DocumentSource σ] {ws : Workspace σ}

/-! ## Where names are looked up -/

/-- Where a workspace looks names up: in its configs, in what sets were merged to, and in the
registries of sets. -/
inductive LooksUpIn (ws : Workspace σ) : Context → Prop
  | config {c : ConfigId} (known : ws.HasConfig c) : LooksUpIn ws (ws.tree c).toContext
  | set (id : SetId) : LooksUpIn ws (((readSet id).run ws).1.toContext (ws.set id).name)
  | registry (id : SetId) : LooksUpIn ws (ws.registryOf id).toContext

variable [FiniteSource σ] {ctx : Context}

/-- Wherever names are looked up, names and identities of beans go together. -/
theorem isNamed_of_looksUpIn (reachable : FreelyReachable ws) (within : ws.LooksUpIn ctx) :
    ctx.IsNamed := by
  have steady := reachable.steady
  cases within with
  | @config c known =>
    refine Context.isNamed_of_trees [ws.tree c] ?_ ?_ ?_
    · rw [List.forall_mem_singleton]
      exact (areOfDocuments_readTree reachable known).areTopLevel
    · exact fun b listed => ⟨_, List.mem_singleton_self _, listed⟩
    · exact (List.flatMap_singleton _ _).symm
  | set id =>
    obtain ⟨trees, -, documents, view⟩ := steady.exists_trees id
    exact MergedSet.IsOfDocuments.isNamed ⟨trees, documents, view⟩ _
  | registry id =>
    -- The registry is empty before the members of the set are registered.
    have declared : ((members id).run ws).1.map (fun m => ((readTree m).run ws).1.toContext)
        = ((ws.membersOf id).map ws.tree).map ConfigTree.toContext := by
      rw [List.map_map]
      rfl
    rw [registryOf, declared]
    refine Registry.isNamed_registerAll rfl rfl ?_
    rw [List.forall_mem_map]
    exact fun c member =>
      areOfDocuments_readTree reachable (hasConfig_of_mem_membersOf steady member)

/-- **References in a workspace.**  Wherever names are looked up, whatever has been done:

* the references of a bean list those of every bean that a walk from it met;
* a bean is credited for the references of the beans nested in it, at any depth, except those to
  itself;
* a member of a bean refers to what the names stand for that are read of its value. -/
theorem references_of_looksUpIn (rules : List InterceptorRule) (reachable : FreelyReachable ws)
    (within : ws.LooksUpIn ctx) (b : Bean) :
    (ctx.Finds b → ∀ c, ctx.Finds c → c.id ∈ (walk rules ctx true (.bean b)).visited →
      references rules ctx false (.bean c) ⊆ references rules ctx true (.bean b)) ∧
    (∀ kind target, LeadsTo rules ctx b true kind target ↔
      (∃ i ∈ b.innerDeep, LeadsTo rules ctx i false kind target) ∧ target.id ≠ b.id) ∧
    ∀ m v il, memberValue? rules ctx b m = some (v, il) → ∀ target,
      HasTarget rules ctx (b.element m) target ↔
        ∃ name ∈ v.namesAs il, ctx.resolve? name = some target := by
  have named := isNamed_of_looksUpIn reachable within
  refine ⟨fun finds c findsTarget met => ?_, ?_, fun m v il holds target => ?_⟩
  · exact references_subset_of_met named finds findsTarget met
  · exact leadsTo_innerDeep_iff rules named b
  · exact hasTarget_member_iff named holds target

end Workspace

end BeanWiring
