/-
# Refreshing

Refreshing goes through the configs of the model and reloads those that have changed.  Afterwards
none of them has: a reload forgets one config, and leaves of the others what was read.

Main statements:

* `hasChanged_refresh` : after refreshing, no config of the model has changed;
* `upToImports_of_unchanged` : what unchanged configs are, at any time and after refreshing.
-/
import BeanWiring.Proofs.Workspace.Staleness

namespace BeanWiring.Workspace

section Source

variable {σ : Type} [DocumentSource σ] {ws ws' : Workspace σ}

/-! ## Reloading one config -/

omit [DocumentSource σ] in
theorem configs_resetSetOfs (entries : List (ProjectId × SetId)) (ws : Workspace σ) :
    (entries.foldl resetSetOf ws).configs = ws.configs := by
  induction entries generalizing ws with
  | nil => rfl
  | cons entry rest ih => exact ih (ws.resetSetOf entry)

/-- A reload leaves an unchanged config unchanged, and the one that is reloaded becomes so. -/
theorem hasChanged_reloadInModel (sound : ws.Sound) (p : ProjectId) {id : ConfigId}
    (own : (ws.config id).origin.isImported = false) {j : ConfigId}
    (unchanged : ws.hasChanged j = false ∨ j = id) :
    (ws.reloadInModel p id).hasChanged j = false := by
  obtain ⟨-, -, cells⟩ := config_reloadConfigs [id] ws
  have configs : (ws.reloadInModel p id).configs = ([id].foldl reloadConfig ws).configs :=
    configs_resetSetOfs _ _
  have kept : ∀ k, ((ws.reloadInModel p id).config k).name = (ws.config k).name ∧
      ∀ c, ((ws.reloadInModel p id).config k).contents = some c →
        (ws.config k).contents = some c ∧ k ∉ [id] := by
    intro k
    obtain ⟨contents, cell, kept⟩ := cells k
    rw [config_congr configs, cell]
    exact ⟨rfl, kept⟩
  rw [hasChanged_eq_false_iff ((safe_reloadInModel p own).sound sound).toWired]
  rcases unchanged with unchanged | rfl
  · rw [hasChanged_eq_false_iff sound.toWired] at unchanged
    refine unchanged.of_forgotten (fun k c read => ((kept k).2 c read).1) ?_
    intro k c _ _ current
    rw [IsCurrent, (changes_reloadInModel ws p id).source, (kept k).1]
    exact current
  · refine throughout_of_unread ?_
    cases read : ((ws.reloadInModel p j).config j).contents with
    | none => rfl
    | some c => exact absurd (List.mem_singleton_self j) ((kept j).2 c read).2

/-! ## Reloading one after the other -/

/-- Configs that were unchanged, or that are gone through, are unchanged afterwards. -/
theorem hasChanged_refreshConfigs (sound : ws.Sound) (entries : List (ProjectId × ConfigId))
    (names : List String)
    (own : ∀ entry ∈ entries,
      ws.HasConfig entry.2 ∧ (ws.config entry.2).origin.isImported = false) {id : ConfigId}
    (listed : ws.hasChanged id = false ∨ ∃ p, (p, id) ∈ entries) :
    (entries.foldl refreshConfig (names, ws)).2.hasChanged id = false := by
  induction entries generalizing ws names with
  | nil =>
    rcases listed with unchanged | ⟨_, none⟩
    · exact unchanged
    · cases none
  | cons entry rest ih =>
    rw [List.foldl_cons, refreshConfig]
    by_cases changed : ws.hasChanged entry.2 = true
    · rw [if_pos changed]
      have own' := (own entry List.mem_cons_self).2
      have first := safe_reloadInModel entry.1 own'
      refine ih (first.sound sound) _ (fun other later => ?_) ?_
      · exact first.forgets.own (own other (List.mem_cons_of_mem entry later))
      · rcases listed with unchanged | ⟨p, listed⟩
        · exact .inl (hasChanged_reloadInModel sound entry.1 own' (.inl unchanged))
        · rcases List.mem_cons.1 listed with rfl | later
          · exact .inl (hasChanged_reloadInModel sound p own' (.inr rfl))
          · exact .inr ⟨p, later⟩
    · rw [if_neg changed]
      refine ih sound names (fun other later => own other (List.mem_cons_of_mem entry later)) ?_
      rcases listed with unchanged | ⟨p, listed⟩
      · exact .inl unchanged
      · rcases List.mem_cons.1 listed with rfl | later
        · exact .inl (by simpa using changed)
        · exact .inr ⟨p, later⟩

omit [DocumentSource σ] in
/-- Whatever is forgotten, the configs of the model are the same. -/
theorem Forgets.modelConfigs (h : Forgets ws ws') : ws'.modelConfigs = ws.modelConfigs := by
  have held : ∀ p, ws'.configsOf p = ws.configsOf p := by
    intro p
    rw [configsOf, (h.projects p).2.1, configsOf]
  simp only [Workspace.modelConfigs, h.inModel, held]

/-- After refreshing, no config of the model has changed. -/
theorem hasChanged_refresh (sound : ws.Sound) {names : List String}
    (done : ws.refresh = .ok (names, ws')) {entry : ProjectId × ConfigId}
    (listed : entry ∈ ws'.modelConfigs) : ws'.hasChanged entry.2 = false := by
  rw [(safe_refresh sound.grounded done).forgets.modelConfigs] at listed
  rw [refresh_eq_ok done]
  refine hasChanged_refreshConfigs sound _ _ ?_ (.inr ⟨entry.1, listed⟩)
  rintro ⟨p, id⟩ there
  obtain ⟨-, name, held⟩ := mem_modelConfigs.1 there
  exact sound.held p (name, id) held

end Source

/-! ## Unchanged configs -/

section Stores

variable {ws ws' : Workspace DocumentStore}

/-- **Unchanged configs.**  However documents in memory are written and removed, whatever is asked
meanwhile, and whatever else is done:

* a config of a project that has not changed has the tree that a new config of its name would have,
  exactly if every import that was read in the tree leads to what it would lead to now; and then
  both answer alike;
* after refreshing, no config of the model has changed, and this holds of each of them. -/
theorem upToImports_of_unchanged (edited : Edited ws) :
    (∀ p, ∀ entry ∈ (ws.project p).configs, ws.hasChanged entry.2 = false →
      ws.UpToImports entry.2) ∧
    ∀ names ws', ws.refresh = .ok (names, ws') → ∀ entry ∈ ws'.modelConfigs,
      ws'.hasChanged entry.2 = false ∧ ws'.UpToImports entry.2 := by
  refine ⟨fun p entry held unchanged => upToImports edited held unchanged, ?_⟩
  intro names ws' done entry listed
  have sound := edited.reachable.sound
  have unchanged := hasChanged_refresh sound done listed
  have later : Edited ws' :=
    edited.content (.refresh names done) (changes_refresh done).source
  obtain ⟨-, name, held⟩ := mem_modelConfigs.1 listed
  exact ⟨unchanged, upToImports later held unchanged⟩

end Stores

/-! ### A document that comes late -/

/-- A project for an open model, with a document that imports a missing one as its config. -/
def expecting : Workspace DocumentStore :=
  let ws : Workspace DocumentStore := { source := {} }
  let ws := (ws.useProject { name := "demo", reader := importingReader }).2
  ({ ws with source := ws.source.put "a.xml" "" }.addConfigs ⟨0⟩ ["a.xml"]).openModel

/-- The project is in the model, and its config was asked for the bean of the missing document.
Then that document was written. -/
def late : Workspace DocumentStore :=
  let ws := (expecting.addProject ⟨0⟩).toOption.getD expecting
  let ws := (((ConfigQuery.bean "second").ask ⟨0⟩).run ws).2
  { ws with source := ws.source.put "b.xml" "" }

theorem edited_late : Edited late := by
  have stamped : DocumentStore.IsStamped {} := by
    intro name d found
    cases found
  have used := (Edited.start stamped).management (.useProject _ "demo" importingReader {} {})
  have added := (used.put "a.xml" "").management (.addConfigs _ ⟨0⟩ ["a.xml"])
  have expected : Edited expecting := added.management (.openModel _)
  have inModel := expected.management
    (.addProject (show expecting.addProject ⟨0⟩ = .ok (_ : Workspace DocumentStore) from rfl))
  exact (inModel.query ((ConfigQuery.bean "second").queryStep (by decide))).put "b.xml" ""

/-- Refreshing finds nothing to reload.  A new config would have the bean, and this one does not. -/
theorem refresh_late : late.refresh = .ok ([], late) ∧
    (late.renewed ⟨0⟩).2.tree (late.renewed ⟨0⟩).1 ≠ late.tree ⟨0⟩ ∧
    (((ConfigQuery.bean "second").ask ⟨0⟩).run late).1 = none ∧
    (((ConfigQuery.bean "second").ask (late.renewed ⟨0⟩).1).run
      (late.renewed ⟨0⟩).2).1.map Bean.name = some "second" := by
  have done : late.refresh = .ok ([], late) := rfl
  obtain ⟨anytime, refreshed⟩ := upToImports_of_unchanged edited_late
  obtain ⟨unchanged, -⟩ := refreshed [] late done (⟨0⟩, ⟨0⟩) (by decide +kernel)
  have upTo := anytime ⟨0⟩ ("a.xml", ⟨0⟩) (by decide +kernel) unchanged
  have lost : ¬ late.ImportsStand ⟨0⟩ := by
    intro stand
    have leads : ((late.config ⟨0⟩).contents.map fun c => c.imports.all fun i =>
        i.target.map (fun t => (late.config t).name)
          = (late.surroundings (late.config ⟨0⟩)).target? i.resource) = some false := by
      decide +kernel
    obtain ⟨c, read, some_import⟩ := Option.map_eq_some_iff.1 leads
    rw [List.all_eq_false] at some_import
    obtain ⟨i, listed, elsewhere⟩ := some_import
    exact elsewhere (decide_eq_true (stand ⟨0⟩ .refl c read i listed))
  exact ⟨done, fun same => lost (upTo.tree.1 same), by decide +kernel, by decide +kernel⟩

end BeanWiring.Workspace
