/-
# Reloading what was imported

Reloading a config resets the sets that are noted with it.  A set is noted with its members, from
which it was merged, but not with what they import; so a config that an import made is noted with
no set, and no set forgets its merged view when such a config is reloaded.  Other configs are in no
tree but their own, so all sets that were merged from them do.

Main statements:

* `tree_reloadConfig_iff` : which trees are other trees after a reload;
* `views_reloadConfig` : which sets answer afresh after a reload, and which answers are right.
-/
import BeanWiring.Proofs.Workspace.Resets
import BeanWiring.Proofs.Workspace.Views

namespace BeanWiring.Workspace

variable {σ : Type} {ws ws' : Workspace σ} {id : ConfigId}

/-! ## Sets after a reload -/

/-- Exactly the sets forget that are noted with the config. -/
theorem set_reloadConfig (ws : Workspace σ) (id : ConfigId) (set : SetId) :
    (ws.reloadConfig id).set set
      = if set ∈ (ws.config id).dependents then (ws.set set).unmerged else ws.set set := by
  rw [reloadConfig, set_resetSets]
  rfl

/-- Where no set is noted with the config, only the config forgets. -/
theorem reloadConfig_of_imported (noted : ws.Noted)
    (imported : (ws.config id).origin.isImported = true) :
    ws.reloadConfig id = ws.updateConfig id fun cell => { cell with contents := none } := by
  have none : (ws.config id).dependents = [] := by
    rw [List.eq_nil_iff_forall_not_mem]
    intro set noted'
    rw [noted.own id set noted'] at imported
    cases imported
  rw [reloadConfig, none]
  rfl

/-! ## Trees after a reload -/

section Trees

variable [DocumentSource σ] [FiniteSource σ]

/-- A tree is as it was if the tree of the config that was reloaded is, or is no part of it. -/
theorem tree_reloadConfig (wired : ws.Wired) {c : ConfigId} (known : ws.HasConfig c)
    (part : ws.Includes c id → (ws.reloadConfig id).tree id = ws.tree id) :
    (ws.reloadConfig id).tree c = ws.tree c := by
  have wired' := wired_reloadConfig wired id
  -- Imports have larger ids, of which there are fewer left.
  obtain ⟨left, room⟩ : ∃ left, ws.configs.size - c.index = left := ⟨_, rfl⟩
  induction left using Nat.strongRecOn generalizing c with
  | ind left ih =>
    by_cases it : c = id
    · subst it
      exact part .refl
    · have same : (ws.reloadConfig id).config c = ws.config c := config_reloadConfig_of_ne it
      cases read : (ws.config c).contents with
      | none =>
        have known' := (hasConfig_reloadConfig ws id c).2 known
        rw [tree_eq_foretell wired' known' (Nat.le_add_right _ ws.fullDepth),
          tree_eq_foretell wired known (Nat.le_add_left _ (ws.reloadConfig id).fullDepth), same]
        exact foretell_unread_congr (source_reloadConfig ws id) _
          (readsAlike_of_projects (projects_reloadConfig ws id) _) read
      | some contents =>
        have read' : ((ws.reloadConfig id).config c).contents = some contents := by rw [same, read]
        rw [tree_of_read wired' read', tree_of_read wired read, same]
        refine congrArg (ConfigTree.mk _) (contents.mapTargets_congr fun t imported => ?_)
        obtain ⟨larger, inside, -⟩ := wired.imports c contents read t imported
        unfold HasConfig at known inside
        have part' : ws.Includes t id → (ws.reloadConfig id).tree id = ws.tree id :=
          fun below => part (.head ⟨contents, read, imported⟩ below)
        exact ih _ (by omega) inside part' rfl

/-- A tree with the config that was reloaded is as it was exactly if the tree of that config is. -/
theorem tree_reloadConfig_iff (wired : ws.Wired) {c : ConfigId} (known : ws.HasConfig c) :
    (ws.reloadConfig id).tree c = ws.tree c ↔
      (ws.Includes c id → (ws.reloadConfig id).tree id = ws.tree id) := by
  refine ⟨fun same includes => ?_, tree_reloadConfig wired known⟩
  -- Trees are made of the trees below, so equal ones have equal ones down to the config.
  induction includes using Relation.ReflTransGen.head_induction_on with
  | refl => exact same
  | @head c b step _ ih =>
    obtain ⟨contents, read, imported⟩ := step
    by_cases it : c = id
    · subst it
      exact same
    · have cell : (ws.reloadConfig id).config c = ws.config c := config_reloadConfig_of_ne it
      have read' : ((ws.reloadConfig id).config c).contents = some contents := by rw [cell, read]
      rw [tree_of_read (wired_reloadConfig wired id) read', tree_of_read wired read, cell] at same
      have followed := contents.eq_of_mapTargets (congrArg ConfigTree.contents same)
      exact ih (wired.imports c contents read b imported).2.1 (followed b imported)

end Trees

/-! ## Answers after a reload -/

section Views

variable [DocumentSource σ] [FiniteSource σ] {set : SetId} {m : MergedSet ConfigId}

omit [FiniteSource σ] in
/-- The view that the trees of its members give a set now. -/
def viewNow (ws : Workspace σ) (set : SetId) : MergedSet ConfigId :=
  .ofMembers (ws.set set).settings ((ws.memberConfigs (ws.set set)).map fun c => (c, ws.tree c))

/-- A merged view is right if it is the one that the trees of the members give now. -/
theorem Grounded.coherent_iff (h : ws.Grounded) (merged : (ws.set set).merged = some m) :
    ws.Coherent set ↔ ws.viewNow set = m := by
  have now : ws.viewNow set = ((Workspace.mergeSet set).run ws).1 := (h.mergeSet_eq_viewOf set).symm
  rw [now]
  refine ⟨fun right => right m merged, fun same m' merged' => ?_⟩
  rw [merged] at merged'
  cases merged'
  exact same

omit [DocumentSource σ] [FiniteSource σ] in
/-- A config that no import made resets every set that was merged from a tree with it. -/
theorem unmerged_reloadConfig (wired : ws.Wired) (noted : ws.Noted)
    (own : (ws.config id).origin.isImported = false) (merged : (ws.set set).merged = some m)
    (part : ∃ c ∈ m.members, ws.Includes c id) : ((ws.reloadConfig id).set set).merged = none := by
  obtain ⟨c, member, includes⟩ := part
  -- The tree with the config is its own, so the config is the member.
  cases wired.eq_of_includes own includes
  rw [set_reloadConfig, if_pos (noted.members set m merged id member)]
  rfl

/-- A config that an import made resets no set.  An answer that was right is right afterwards
exactly if the trees of the members, as they are then, still give that view. -/
theorem coherent_reloadConfig_iff (grounded : ws.Grounded) (noted : ws.Noted)
    (imported : (ws.config id).origin.isImported = true) (merged : (ws.set set).merged = some m)
    (right : ws.Coherent set) :
    (ws.reloadConfig id).Coherent set ↔ (ws.reloadConfig id).viewNow set = ws.viewNow set := by
  have kept : ((ws.reloadConfig id).set set).merged = some m := by
    rw [reloadConfig_of_imported noted imported]
    exact merged
  rw [(grounded.reloadConfig id).coherent_iff kept, (grounded.coherent_iff merged).1 right]

/-- **Reloading.**  Whatever has been done before, reloads of imported configs included:

* if no import made a config, reloading it resets every set that was merged from a tree with the
  config, and such a set answers the next question from a merge of its own;
* if an import made the config, reloading it resets no set, and every set that was merged answers
  with the view that it had; where this was the right one, it still is exactly if the trees of the
  members, as they are now, give the same view;
* of all trees those with the config can change, and they do exactly if that of the config does. -/
theorem views_reloadConfig (reachable : FreelyReachable ws) (id : ConfigId) :
    ((ws.config id).origin.isImported = false → ∀ set m, (ws.set set).merged = some m →
      (∃ c ∈ m.members, ws.Includes c id) →
        ((ws.reloadConfig id).set set).merged = none ∧
          ((readSet set).run (ws.reloadConfig id)).1
            = ((mergeSet set).run (ws.reloadConfig id)).1) ∧
    ((ws.config id).origin.isImported = true → ∀ set m, (ws.set set).merged = some m →
      (readSet set).run (ws.reloadConfig id) = (m, ws.reloadConfig id) ∧
        (ws.Coherent set → ((ws.reloadConfig id).Coherent set ↔
          (ws.reloadConfig id).viewNow set = ws.viewNow set))) ∧
    ∀ c, ws.HasConfig c → ((ws.reloadConfig id).tree c = ws.tree c ↔
      (ws.Includes c id → (ws.reloadConfig id).tree id = ws.tree id)) := by
  have grounded := reachable.steady.toGrounded
  have noted := reachable.steady.toNoted
  refine ⟨fun own set m merged part => ?_, fun imported set m merged => ⟨?_, fun right => ?_⟩,
    fun c known => tree_reloadConfig_iff grounded.toWired known⟩
  · have unmerged := unmerged_reloadConfig grounded.toWired noted own merged part
    refine ⟨unmerged, ?_⟩
    rw [run_readSet_of_unmerged unmerged]
  · refine readSet_of_merged ?_
    rw [reloadConfig_of_imported noted imported]
    exact merged
  · exact coherent_reloadConfig_iff grounded noted imported merged right

end Views

/-! ### A document that is gone -/

/-- The imported config is reloaded, and has no bean any more.  The set still has it. -/
theorem not_coherent_orphaned :
    ((readSet ⟨0⟩).run (orphaned.reloadConfig ⟨1⟩)).1.beans.map Bean.name = ["first", "second"] ∧
      ¬(orphaned.reloadConfig ⟨1⟩).Coherent ⟨0⟩ := by
  have merged : (orphaned.set ⟨0⟩).merged = some ((readSet ⟨0⟩).run gathered).1 :=
    merged_readSet reachable_gathered.sound (by decide)
  have view : ((readSet ⟨0⟩).run gathered).1.beans.map Bean.name = ["first", "second"] := by
    decide +kernel
  obtain ⟨-, imported, -⟩ := views_reloadConfig reachable_orphaned.freely ⟨1⟩
  obtain ⟨kept, right_iff⟩ := imported (by decide +kernel) ⟨0⟩ _ merged
  have right : orphaned.Coherent ⟨0⟩ := by
    rw [reachable_orphaned.sound.coherent_iff]
    intro m merged'
    cases merged.symm.trans merged'
    decide +kernel
  refine ⟨by rw [kept, view], ?_⟩
  rw [right_iff right]
  intro same
  have now : ((orphaned.reloadConfig ⟨1⟩).viewNow ⟨0⟩).beans.map Bean.name = ["first"] := by
    decide +kernel
  have before : (orphaned.viewNow ⟨0⟩).beans.map Bean.name = ["first", "second"] := by
    decide +kernel
  rw [same, before] at now
  cases now

end BeanWiring.Workspace
