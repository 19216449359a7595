/-
# Questions leave answers alone

What questions to configs and config sets do to a workspace: they read configs, and they
merge sets that were not merged.  A set that a question merges is merged from the configs
that its members stand for at that moment.

Main statements: `QueryStep.effect`, and `Keeps`, what questions and changes of content both
preserve.
-/
import BeanWiring.Proofs.Workspace.Content
import BeanWiring.Workspace.Validation

namespace BeanWiring.Workspace

variable {σ : Type} {ws ws' ws'' : Workspace σ}

/-! ## Settled sets -/

/-- If the set has been merged, then from the configs that its members stand for now. -/
def Settled (ws : Workspace σ) (id : SetId) : Prop :=
  ∀ m, (ws.set id).merged = some m → m.members = ws.memberConfigs (ws.set id)

/-- A set stays settled where the workspace only forgets. -/
theorem Forgets.settled (h : Forgets ws ws') {id : SetId} (settled : ws.Settled id) :
    ws'.Settled id := by
  intro m merged
  rw [h.memberConfigs, h.sets id m merged]
  rw [h.sets id m merged] at merged
  exact settled m merged

/-- The invariant is preserved, and with it which sets are settled. -/
structure Keeps (ws ws' : Workspace σ) : Prop where
  sound : ws.Sound → ws'.Sound
  settled : ws.Sound → ∀ id, ws.Settled id → ws'.Settled id

theorem Keeps.refl (ws : Workspace σ) : Keeps ws ws := ⟨id, fun _ _ => id⟩

theorem Keeps.trans (h : Keeps ws ws') (h' : Keeps ws' ws'') : Keeps ws ws'' :=
  ⟨fun s => h'.sound (h.sound s),
    fun s id settled => h'.settled (h.sound s) id (h.settled s id settled)⟩

/-- Safe steps keep the invariant and which sets are settled. -/
theorem Safe.keeps (h : Safe ws ws') : Keeps ws ws' :=
  ⟨h.sound, fun _ _ => h.forgets.settled⟩

/-! ## Noting a merged view -/

/-- Notes the merged view of a set. -/
def noteMerged (ws : Workspace σ) (id : SetId) (m : MergedSet ConfigId) : Workspace σ :=
  ws.updateSet id fun cell => { cell with merged := some m }

/-- Where a merged view is noted, only its set changes, and that only by the view. -/
theorem set_noteMerged_cases (ws : Workspace σ) (id other : SetId) (m : MergedSet ConfigId) :
    (ws.noteMerged id m).set other = ws.set other ∨
      other = id ∧ (ws.noteMerged id m).set other = { ws.set id with merged := some m } :=
  set_updateSet_cases ws id other fun cell => { cell with merged := some m }

/-- A view that is merged from what the members show may be noted. -/
theorem Sound.noteMerged (h : ws.Sound) {id : SetId} {m : MergedSet ConfigId}
    (new : ws.MergedFrom id m) : (ws.noteMerged id m).Sound where
  toWired := h.toWired.congr rfl
  held := h.held
  merged := by
    intro other m' merged
    rcases set_noteMerged_cases ws id other m with same | ⟨rfl, changed⟩
    · rw [same] at merged
      exact (h.merged other m' merged).congr rfl (congrArg SetCell.settings same)
    · rw [changed] at merged
      cases Option.some.inj merged
      exact new.congr rfl (by rw [changed])

/-- A view that is merged from the members of now leaves sets settled. -/
theorem Settled.noteMerged {other : SetId} (h : ws.Settled other) {id : SetId}
    {m : MergedSet ConfigId} (members : m.members = ws.memberConfigs (ws.set id)) :
    (ws.noteMerged id m).Settled other := by
  intro m' merged
  rcases set_noteMerged_cases ws id other m with same | ⟨rfl, changed⟩
  · rw [same] at merged ⊢
    exact h m' merged
  · rw [changed] at merged ⊢
    cases Option.some.inj merged
    exact members

section Source

variable [DocumentSource σ]

/-- Reading configs keeps the invariant and which sets are settled. -/
theorem Reads.keeps (h : Reads ws ws') : Keeps ws ws' :=
  ⟨fun s => s.reads h, fun _ _ => h.toExtends.forgets.settled⟩

/-! ## Sets -/

/-- A set that has been merged answers with its merged view; any other is merged first. -/
theorem run_readSet (ws : Workspace σ) (id : SetId) :
    (readSet id).run ws = match (ws.set id).merged with
      | some m => (m, ws)
      | none => (((mergeSet id).run ws).1,
          ((mergeSet id).run ws).2.noteMerged id ((mergeSet id).run ws).1) := by
  rw [readSet, StateT.run_bind, StateT.run_get, pure_bind]
  dsimp only
  cases (ws.set id).merged with
  | some m => rfl
  | none => rfl

/-- A set that was merged is not merged again. -/
theorem readSet_of_merged {id : SetId} {m : MergedSet ConfigId}
    (merged : (ws.set id).merged = some m) : (readSet id).run ws = (m, ws) := by
  rw [run_readSet, merged]

/-- A set that was not merged is merged now, and the view is noted. -/
theorem run_readSet_of_unmerged {id : SetId} (unmerged : (ws.set id).merged = none) :
    (readSet id).run ws = (((mergeSet id).run ws).1,
      ((mergeSet id).run ws).2.noteMerged id ((mergeSet id).run ws).1) := by
  rw [run_readSet, unmerged]

variable [FiniteSource σ]

/-- Merging a set where it was not merged preserves the invariant, and settled sets stay
settled. -/
theorem keeps_readSet (ws : Workspace σ) (id : SetId) : Keeps ws ((readSet id).run ws).2 := by
  cases unmerged : (ws.set id).merged with
  | some m =>
    rw [readSet_of_merged unmerged]
    exact .refl ws
  | none =>
    rw [run_readSet_of_unmerged unmerged]
    refine ⟨?_, ?_⟩
    · intro h
      obtain ⟨-, sound, -, merged⟩ := h.mergeSet id
      exact sound.noteMerged merged
    · intro h other settled
      obtain ⟨ext, -, members, -⟩ := h.mergeSet id
      refine (ext.forgets.settled settled).noteMerged ?_
      rw [ext.forgets.memberConfigs, ext.set]
      exact members

/-- After a question to a set, the set has been merged. -/
theorem merged_readSet (h : ws.Sound) {id : SetId} (known : ws.HasSet id) :
    (((readSet id).run ws).2.set id).merged = some ((readSet id).run ws).1 := by
  cases unmerged : (ws.set id).merged with
  | some m =>
    rw [readSet_of_merged unmerged]
    exact unmerged
  | none =>
    obtain ⟨ext, -⟩ := h.mergeSet id
    have known' : ((mergeSet id).run ws).2.HasSet id := by
      rw [HasSet, ext.rest]
      exact known
    rw [run_readSet_of_unmerged unmerged, noteMerged, set_updateSet _ _ _ _ known', if_pos rfl]

/-! ## Reading for a question -/

omit [FiniteSource σ]

/-- An import is picked out of a config that is read for it. -/
theorem run_importAt?_cons (ws : Workspace σ) (i : Nat) (rest : List Nat) (id : ConfigId) :
    (importAt? (i :: rest) id).run ws
      = match (((readConfig id).run ws).1.imports[i]?).bind Import.target with
        | some next => (importAt? rest next).run (ws.afterReading id)
        | none => (none, ws.afterReading id) := by
  rw [importAt?, StateT.run_bind, afterReading]
  -- The config is read, whatever follows.
  obtain ⟨⟨contents, ws'⟩, read⟩ : ∃ result, (readConfig id).run ws = result := ⟨_, rfl⟩
  rw [read]
  show StateT.run _ ws' = _
  cases (contents.imports[i]?).bind Import.target with
  | some next => rfl
  | none => rfl

/-- Following imports is reading configs. -/
theorem reads_importAt? (positions : List Nat) {id : ConfigId} (h : ws.Wired)
    (known : ws.HasConfig id) : Reads ws ((importAt? positions id).run ws).2 := by
  induction positions generalizing ws id with
  | nil => exact .refl ws
  | cons i rest ih =>
    have first : Reads ws (ws.afterReading id) := (Reads.refl ws).read id known
    have contents := contents_afterReading known
    rw [run_importAt?_cons]
    cases found : (((readConfig id).run ws).1.imports[i]?).bind Import.target with
    | none => exact first
    | some next =>
      obtain ⟨imported, listed, target⟩ := Option.bind_eq_some_iff.1 found
      have below : next ∈ ((readConfig id).run ws).1.importedConfigs := by
        rw [Contents.mem_importedConfigs, List.mem_map]
        exact ⟨imported, List.mem_of_getElem? listed, target⟩
      have wired := first.wired h
      exact first.trans (ih wired (wired.imports id _ contents next below).2.1)

/-- Reading the first of some configs is reading configs. -/
theorem reads_readFirst (count : Nat) {ids : List ConfigId} (h : ws.Wired)
    (known : ∀ id ∈ ids, ws.HasConfig id) : Reads ws ((readFirst count ids).run ws).2 := by
  induction count generalizing ws ids with
  | zero => exact .refl ws
  | succ count ih =>
    cases ids with
    | nil => exact .refl ws
    | cons id rest =>
      have known' := known id List.mem_cons_self
      have first : Reads ws (ws.afterReading id) := (Reads.refl ws).read id known'
      have contents := contents_afterReading known'
      have wired := first.wired h
      show Reads ws ((readFirst count (((readConfig id).run ws).1.importedConfigs ++ rest)).run
        (ws.afterReading id)).2
      refine first.trans (ih wired ?_)
      intro other listed
      rcases List.mem_append.1 listed with listed | listed
      · exact (wired.imports id _ contents other listed).2.1
      · exact first.toExtends.hasConfig (known other (List.mem_cons_of_mem id listed))

/-- Asking a tree is reading those of its configs that the question needs. -/
theorem reads_askTree {α : Type} {id : ConfigId} (h : ws.Wired) (known : ws.HasConfig id)
    (question : ConfigTree → α × Need) : Reads ws ((askTree id question).run ws).2 := by
  have one : ∀ j ∈ [id], ws.HasConfig j := by
    intro j hj
    rwa [List.mem_singleton.1 hj]
  exact reads_readFirst _ h one

/-! ## Questions -/

/-- A config or a config set was made under the id. -/
def Has (ws : Workspace σ) : ContextId → Prop
  | .config id => ws.HasConfig id
  | .set id => ws.HasSet id

/-- A question to a config or to a config set.  A validation looks at configs and config sets
as `populate` does. -/
inductive QueryStep : Workspace σ → Workspace σ → Prop
  | contents (ws : Workspace σ) (id : ConfigId) (known : ws.HasConfig id) :
      QueryStep ws ((readConfig id).run ws).2
  | importAt (ws : Workspace σ) (positions : List Nat) (id : ConfigId)
      (known : ws.HasConfig id) : QueryStep ws ((importAt? positions id).run ws).2
  | ask {α : Type} (ws : Workspace σ) (id : ContextId) (known : ws.Has id)
      (question : Context → α × Need) : QueryStep ws ((ask id question).run ws).2
  | hasClass (ws : Workspace σ) (id : ContextId) (known : ws.Has id) (className : String) :
      QueryStep ws ((hasClass id className).run ws).2
  | beansOfClass (ws : Workspace σ) (id : ContextId) (known : ws.Has id) (className : String) :
      QueryStep ws ((beansOfClass id className).run ws).2
  | beanClasses (ws : Workspace σ) (id : ContextId) (known : ws.Has id) :
      QueryStep ws ((beanClasses id).run ws).2
  | problems (ws : Workspace σ) (id : ConfigId) (known : ws.HasConfig id) :
      QueryStep ws ((problems id).run ws).2
  | members (ws : Workspace σ) (id : SetId) (known : ws.HasSet id) :
      QueryStep ws ((members id).run ws).2
  | populate (ws : Workspace σ) (id : ContextId) (known : ws.Has id) :
      QueryStep ws ((populate id).run ws).2

variable [FiniteSource σ]

/-- A question reads configs, or merges a set. -/
theorem QueryStep.effect (step : QueryStep ws ws') (h : ws.Wired) :
    Reads ws ws' ∨ ∃ id, ws' = ((readSet id).run ws).2 := by
  cases step with
  | contents _ id known => exact .inl ((Reads.refl ws).read id known)
  | importAt _ positions id known => exact .inl (reads_importAt? positions h known)
  | ask _ id known question =>
    cases id with
    | config id => exact .inl (reads_askTree h known _)
    | set id => exact .inr ⟨id, rfl⟩
  | hasClass _ id known className =>
    cases id with
    | config id => exact .inl (reads_askTree h known _)
    | set id => exact .inr ⟨id, rfl⟩
  | beansOfClass _ id known className =>
    cases id with
    | config id => exact .inl (reads_askTree h known _)
    | set id => exact .inr ⟨id, rfl⟩
  | beanClasses _ id known =>
    cases id with
    | config id => exact .inl (reads_askTree h known _)
    | set id => exact .inr ⟨id, rfl⟩
  | problems _ id known => exact .inl (reads_askTree h known _)
  | members _ id known => exact .inr ⟨id, rfl⟩
  | populate _ id known =>
    cases id with
    | config id => exact .inl (shows_readTree h known).1
    | set id => exact .inr ⟨id, rfl⟩

/-- Questions keep the invariant and which sets are settled. -/
theorem QueryStep.keeps (step : QueryStep ws ws') : Keeps ws ws' := by
  have either : ws.Sound → Keeps ws ws' := by
    intro h
    rcases step.effect h.toWired with reads | ⟨id, rfl⟩
    · exact reads.keeps
    · exact keeps_readSet ws id
  exact ⟨fun h => (either h).sound h, fun h => (either h).settled h⟩

end Source

end BeanWiring.Workspace
