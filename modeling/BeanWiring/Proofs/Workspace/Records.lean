/-
# Records of reading

What has been read of a config is what its document said at some time, in the surroundings that the
config has now.  The documents may have been written and removed since, and what the document
imported was found among those that existed then.

Main statements:

* `Throughout` : what holds of all that has been read of a tree;
* `Edited` : the workspaces that come about while documents in memory are written and removed;
* `Edited.recorded` : everything in the tree of a config that a project holds is a record.
-/
import BeanWiring.Proofs.Document.Versions
import BeanWiring.Proofs.Workspace.ImportPaths

namespace BeanWiring.Workspace

variable {σ : Type} {ws ws' : Workspace σ}

/-! ## Trees as far as they have been read -/

/-- A config has been read, and imports another. -/
def Imports (ws : Workspace σ) (id t : ConfigId) : Prop :=
  ∃ c, (ws.config id).contents = some c ∧ t ∈ c.importedConfigs

/-- A config is in the tree of another, below configs that have been read. -/
abbrev Includes (ws : Workspace σ) : ConfigId → ConfigId → Prop :=
  Relation.ReflTransGen ws.Imports

/-- All that has been read of the tree of a config has a property. -/
def Throughout (ws : Workspace σ) (Q : ConfigId → Contents ConfigId → Prop)
    (id : ConfigId) : Prop :=
  ∀ j, ws.Includes id j → ∀ c, (ws.config j).contents = some c → Q j c

/-- A config that no import made is in no tree but its own. -/
theorem Wired.eq_of_includes (wired : ws.Wired) {id c : ConfigId}
    (own : (ws.config id).origin.isImported = false) (includes : ws.Includes c id) : c = id := by
  rcases Relation.ReflTransGen.cases_tail includes with rfl | ⟨b, -, contents, read, imported⟩
  · rfl
  · exact absurd rfl (wired.ne_of_imported read imported own)

variable {Q Q' : ConfigId → Contents ConfigId → Prop}

/-- Anything holds throughout what was read of an unread config. -/
theorem throughout_of_unread {id : ConfigId} (unread : (ws.config id).contents = none) :
    ws.Throughout Q id := by
  intro j includes c read
  -- Nothing is below a config that has not been read.
  rcases Relation.ReflTransGen.cases_head includes with rfl | ⟨t, ⟨c', read', -⟩, -⟩
  · rw [unread] at read
    cases read
  · rw [unread] at read'
    cases read'

/-- What holds throughout a config that was read holds of it, and throughout each config that it
imports. -/
theorem throughout_of_read {id : ConfigId} {c : Contents ConfigId}
    (read : (ws.config id).contents = some c) :
    ws.Throughout Q id ↔ Q id c ∧ ∀ t ∈ c.importedConfigs, ws.Throughout Q t := by
  constructor
  · intro h
    exact ⟨h id .refl c read, fun t imported j includes => h j (.head ⟨c, read, imported⟩ includes)⟩
  · rintro ⟨here, below⟩ j includes c' read'
    rcases Relation.ReflTransGen.cases_head includes with
      rfl | ⟨t, ⟨c'', read'', imported⟩, further⟩
    · rw [read] at read'
      cases read'
      exact here
    · rw [read] at read''
      cases read''
      exact below t imported j further c' read'

/-- Where something has been forgotten, there is less to show. -/
theorem Throughout.of_forgotten {id : ConfigId} (h : ws.Throughout Q id)
    (kept : ∀ j c, (ws'.config j).contents = some c → (ws.config j).contents = some c)
    (change : ∀ j c, ws.Includes id j → (ws.config j).contents = some c → Q j c → Q' j c) :
    ws'.Throughout Q' id := by
  intro j includes c read
  have imports : ∀ a b, ws'.Imports a b → ws.Imports a b :=
    fun a b ⟨c, read, imported⟩ => ⟨c, kept a c read, imported⟩
  have before : ws.Includes id j := Relation.ReflTransGen.mono imports _ _ includes
  exact change j c before (kept j c read) (h j before c (kept j c read))

/-- A tree is in one project. -/
theorem Linked.project_of_includes (h : ws.Linked) {id j : ConfigId} (includes : ws.Includes id j) :
    (ws.config j).project = (ws.config id).project := by
  induction includes with
  | refl => rfl
  | tail _ step ih =>
    obtain ⟨c, read, imported⟩ := step
    rw [(h _ c read _ imported).2.2, ih]

section Read

variable [DocumentSource σ]

/-- A first reading adds to trees what has not been read. -/
theorem includes_of_afterReading {id : ConfigId} (known : ws.HasConfig id)
    (unread : (ws.config id).contents = none) {a j : ConfigId}
    (includes : (ws.afterReading id).Includes a j) :
    ws.Includes a j ∨ ((ws.afterReading id).config j).contents = none := by
  induction includes with
  | refl => exact .inl .refl
  | tail _ step ih =>
    obtain ⟨c, read, imported⟩ := step
    rcases ih with before | none
    · rcases contents_afterReading_cases known unread read with ⟨rfl, rfl⟩ | read'
      · exact .inr (isImport_of_firstContents known unread imported).2.2.unread
      · exact .inl (before.tail ⟨c, read', imported⟩)
    · rw [none] at read
      cases read

end Read

/-! ## Records -/

section Stores

variable {ws ws' : Workspace DocumentStore}

/-- What the document of a config said at some time: it was read among the documents as they were,
and since then documents have only been written and removed. -/
def IsRecord (ws : Workspace DocumentStore) (id : ConfigId) (c : Contents ConfigId) : Prop :=
  ∃ old : DocumentStore, old.IsStamped ∧ ws.source.Follows old ∧
    c.mapTargets (fun t => (ws.config t).name)
      = ({ ws with source := old } : Workspace DocumentStore).currentContents (ws.config id)

/-- A record stays one as long as configs are what they are and read as before. -/
theorem IsRecord.congr {id : ConfigId} {c : Contents ConfigId} (h : ws.IsRecord id c)
    (source : ws'.source.Follows ws.source)
    (names : ∀ t ∈ c.importedConfigs, (ws'.config t).name = (ws.config t).name)
    (name : (ws'.config id).name = (ws.config id).name)
    (chain : (ws'.config id).chain = (ws.config id).chain)
    (project : (ws'.config id).project = (ws.config id).project)
    (alike : (ws.project (ws.config id).project).ReadsAlike (ws'.project (ws.config id).project)) :
    ws'.IsRecord id c := by
  obtain ⟨old, stamped, follows, said⟩ := h
  have again : ({ ws' with source := old } : Workspace DocumentStore).currentContents
        (ws'.config id)
      = ({ ws with source := old } : Workspace DocumentStore).currentContents (ws.config id) := by
    refine currentContents_alike ?_ name chain project alike
    rfl
  exact ⟨old, stamped, source.trans follows, by rw [c.mapTargets_congr names, said, again]⟩

/-- Projects hold configs of their own that are imported by none, and all that has been read of
their trees is recorded. -/
structure Recorded (ws : Workspace DocumentStore) : Prop where
  stamped : ws.source.IsStamped
  linked : ws.Linked
  held : ∀ p, ∀ entry ∈ (ws.project p).configs, ws.HasConfig entry.2 ∧
    (ws.config entry.2).project = p ∧ (ws.config entry.2).chain = []
  records : ∀ p, ∀ entry ∈ (ws.project p).configs, ws.Throughout ws.IsRecord entry.2

namespace Recorded

/-- A workspace without configs is recorded, whatever documents there are. -/
theorem start {source : DocumentStore} (stamped : source.IsStamped) :
    ({ source } : Workspace DocumentStore).Recorded where
  stamped := stamped
  linked := by
    intro id c read
    cases read
  held := by
    intro p entry listed
    cases listed
  records := by
    intro p entry listed
    cases listed

/-- A workspace stays recorded while documents move on. -/
theorem follow (h : ws.Recorded) {source : DocumentStore} (stamped : source.IsStamped)
    (follows : source.Follows ws.source) :
    ({ ws with source } : Workspace DocumentStore).Recorded where
  stamped := stamped
  linked := h.linked
  held := h.held
  records := by
    intro p entry listed j includes c read
    exact (h.records p entry listed j includes c read).congr follows (fun _ _ => rfl) rfl rfl rfl
      ⟨rfl, rfl, rfl⟩

/-- A config that is read now has a record of the documents of now. -/
theorem afterReading (h : ws.Recorded) {id : ConfigId} (known : ws.HasConfig id)
    (unread : (ws.config id).contents = none) : (ws.afterReading id).Recorded := by
  have ext := extends_afterReading known
  refine ⟨ext.source ▸ h.stamped, h.linked.afterReading known, ?_, ?_⟩
  · intro p entry listed
    rw [ext.project] at listed
    obtain ⟨there, project, chain⟩ := h.held p entry listed
    have cell := ext.cells entry.2 there
    rw [cell.project, cell.chain]
    exact ⟨ext.hasConfig there, project, chain⟩
  · intro p entry listed j includes c read
    rw [ext.project] at listed
    rcases contents_afterReading_cases known unread read with ⟨rfl, rfl⟩ | before
    · -- It was read just now.
      refine ⟨ws.source, h.stamped, ext.source ▸ .refl _, ?_⟩
      have cell := ext.cells j known
      rw [mapTargets_firstContents known unread ConfigCell.name]
      have same : (ws.afterReading j).project (ws.config j).project
          = ws.project (ws.config j).project := ext.project _
      have again : ({ ws.afterReading j with source := ws.source } :
          Workspace DocumentStore).currentContents ((ws.afterReading j).config j)
            = ws.currentContents (ws.config j) := by
        refine currentContents_alike ?_ cell.name cell.chain cell.project ?_
        · rfl
        · exact same ▸ ⟨rfl, rfl, rfl⟩
      exact (Contents.mapTargets_id _).trans again.symm
    · rcases includes_of_afterReading known unread includes with inside | none
      · have cell := ext.cells j (hasConfig_of_contents before)
        have record := h.records p entry listed j inside c before
        refine record.congr (ext.source ▸ .refl _) ?_ cell.name cell.chain cell.project ?_
        · intro t imported
          exact (ext.cells t (h.linked j c before t imported).1).name
        · rw [ext.project]
          exact ⟨rfl, rfl, rfl⟩
      · rw [none] at read
        cases read

/-- A workspace stays recorded where configs only shed what was read. -/
theorem of_sheds (h : ws.Recorded) (sheds : Sheds ws ws') (source : ws'.source = ws.source) :
    ws'.Recorded := by
  refine ⟨source ▸ h.stamped, h.linked.of_sheds sheds, ?_, ?_⟩
  · intro p entry listed
    rcases sheds.held p entry listed with ⟨before, -⟩ | ⟨known, -, project, chain⟩
    · obtain ⟨known, project, chain⟩ := h.held p entry before
      obtain ⟨-, chain', project'⟩ := sheds.frame entry.2 known
      exact ⟨known.of_size_le sheds.size_le, project'.trans project, chain'.trans chain⟩
    · exact ⟨known, project, chain⟩
  · intro p entry listed
    rcases sheds.held p entry listed with ⟨before, alike | unread⟩ | ⟨-, unread, -⟩
    · obtain ⟨-, project, -⟩ := h.held p entry before
      have records := h.records p entry before
      refine records.of_forgotten sheds.contents fun j c includes read record => ?_
      -- The config is in the project that reads as before.
      have inside : (ws.config j).project = p :=
        (h.linked.project_of_includes includes).trans project
      obtain ⟨name, chain, same⟩ := sheds.frame j (hasConfig_of_contents read)
      refine record.congr (source ▸ .refl _) ?_ name chain same (inside ▸ alike)
      exact fun t imported => (sheds.frame t (h.linked j c read t imported).1).1
    · exact throughout_of_unread unread
    · exact throughout_of_unread unread

/-- Changes leave a workspace recorded. -/
theorem changes (h : ws.Recorded) (changes : Changes ws ws') : ws'.Recorded := by
  induction changes with
  | refl => exact h
  | tail _ change ih =>
    rcases change.read_or_sheds with ⟨id, known, unread, rfl⟩ | sheds
    · exact ih.afterReading known unread
    · exact ih.of_sheds sheds change.source

end Recorded

/-! ## Editing -/

/-- A workspace that comes about while documents in memory are written and removed. -/
inductive Edited : Workspace DocumentStore → Prop
  | start {source : DocumentStore} (stamped : source.IsStamped) : Edited { source }
  | put {ws : Workspace DocumentStore} (before : Edited ws) (name content : String) :
      Edited { ws with source := ws.source.put name content }
  | remove {ws : Workspace DocumentStore} (before : Edited ws) (name : String) :
      Edited { ws with source := ws.source.remove name }
  | content {ws ws' : Workspace DocumentStore} (before : Edited ws) (step : ContentStep ws ws')
      (same : ws'.source = ws.source) : Edited ws'
  | management {ws ws' : Workspace DocumentStore} (before : Edited ws)
      (step : ManagementStep ws ws') : Edited ws'

/-- What comes about by edits and steps is reachable. -/
theorem Edited.reachable (h : Edited ws) : Reachable ws := by
  induction h with
  | start _ => exact .start _
  | put _ name content ih => exact ih.content (.documents _ _)
  | remove _ name ih => exact ih.content (.documents _ _)
  | content _ step _ ih => exact ih.content step
  | management _ step ih => exact ih.management step

/-- Questions leave documents alone. -/
theorem Edited.query (h : Edited ws) (step : QueryStep ws ws') : Edited ws' := by
  refine h.content (.query step) ?_
  rcases step.effect h.reachable.sound.toWired with reads | ⟨set, rfl⟩
  · exact reads.toExtends.source
  · exact (changes_readSet h.reachable.sound.grounded set).source

/-- However documents are edited, everything that has been read is a record. -/
theorem Edited.recorded (h : Edited ws) : ws.Recorded := by
  induction h with
  | start stamped => exact .start stamped
  | put _ name content ih =>
    exact ih.follow (ih.stamped.put name content) (DocumentStore.follows_put _ name content)
  | remove _ name ih =>
    exact ih.follow (ih.stamped.remove name) (DocumentStore.follows_remove _ name)
  | content before step same ih =>
    rcases step.changes before.reachable.sound.grounded with ⟨source, rfl⟩ | changes
    · cases same
      exact ih
    · exact ih.changes changes
  | management _ step ih => exact ih.changes step.changes

end Stores

end BeanWiring.Workspace
