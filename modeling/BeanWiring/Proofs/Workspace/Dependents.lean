/-
# Dependents

A config is noted with the sets that were merged from it as a member.  It is not noted with sets
that were merged from what imports it; so a config that an import made is noted with no set.  What
a set was merged from are documents, which need not say the same any more.  All this stays true of
a workspace whatever is done to it, reloads of imported configs included.

Main statements:

* `Noted.change`, `Composed.change` : no change ends it;
* `FreelyReachable.steady` : what holds whatever has been done.
-/
import BeanWiring.Proofs.Workspace.Changes

namespace BeanWiring.Workspace

variable {σ : Type} {ws ws' : Workspace σ} {id : ConfigId}

/-! ## Sets that are noted with a config -/

/-- A set is noted with the configs that it was merged from, and no set is noted with a config that
an import made. -/
structure Noted (ws : Workspace σ) : Prop where
  own : ∀ id, ∀ set ∈ (ws.config id).dependents, (ws.config id).origin.isImported = false
  members : ∀ set m, (ws.set set).merged = some m → ∀ c ∈ m.members,
    set ∈ (ws.config c).dependents

namespace Noted

/-- Every config is noted with the sets that it was noted with before, or with none before and now,
and no set was merged meanwhile. -/
theorem of_cells (h : ws.Noted)
    (cells : ∀ id, (ws'.config id).origin = (ws.config id).origin ∧
        (ws'.config id).dependents = (ws.config id).dependents ∨
      (ws.config id).dependents = [] ∧ (ws'.config id).dependents = [])
    (sets : ∀ set m, (ws'.set set).merged = some m → (ws.set set).merged = some m) :
    ws'.Noted where
  own := by
    intro id set noted
    rcases cells id with ⟨origin, dependents⟩ | ⟨-, none⟩
    · rw [dependents] at noted
      rw [origin]
      exact h.own id set noted
    · rw [none] at noted
      cases noted
  members := by
    intro set m merged c member
    have noted := h.members set m (sets set m merged) c member
    rcases cells c with ⟨-, dependents⟩ | ⟨none, -⟩
    · rwa [dependents]
    · rw [none] at noted
      cases noted

/-- Where no config changes and no set is merged, sets stay noted. -/
theorem of_configs (h : ws.Noted) (configs : ws'.configs = ws.configs)
    (sets : ∀ set m, (ws'.set set).merged = some m → (ws.set set).merged = some m) :
    ws'.Noted := by
  refine h.of_cells (fun id => .inl ?_) sets
  rw [config_congr configs]
  exact ⟨rfl, rfl⟩

/-- A reload forgets contents and merged views, but not with which sets a config is noted. -/
theorem reloadConfig (h : ws.Noted) (id : ConfigId) : (ws.reloadConfig id).Noted := by
  refine h.of_cells (fun other => .inl ?_) fun set m merged => ?_
  · obtain ⟨_, cell⟩ := frame_reloadConfig ws id other
    rw [cell]
    exact ⟨rfl, rfl⟩
  · have same : (ws.reloadConfig id).set set = ws.set set := (merged_resetSets merged).2
    rwa [same] at merged

/-- A set may be noted with a config that no import made. -/
theorem addDependent (h : ws.Noted) (set : SetId) (own : (ws.config id).origin.isImported = false) :
    (addDependent set ws id).Noted := by
  have cells := fun other => config_updateConfig_cases ws id other fun cell => { cell with
    dependents := if set ∈ cell.dependents then cell.dependents else cell.dependents ++ [set] }
  constructor
  · intro other s noted
    rw [origin_addDependent]
    rcases cells other with same | ⟨rfl, -⟩
    · rw [Workspace.addDependent, same] at noted
      exact h.own other s noted
    · exact own
  · intro s m merged c member
    have noted := h.members s m merged c member
    rcases cells c with same | ⟨rfl, more⟩
    · rwa [Workspace.addDependent, same]
    · rw [Workspace.addDependent, more]
      dsimp only
      split
      · exact noted
      · exact List.mem_append_left _ noted

/-- A set may be merged once it is noted with all members of the merged view. -/
theorem noteMerged (h : ws.Noted) {set : SetId} {m : MergedSet ConfigId}
    (noted : ∀ c ∈ m.members, set ∈ (ws.config c).dependents) : (ws.noteMerged set m).Noted where
  own := h.own
  members := by
    intro other m' merged
    rcases set_noteMerged_cases ws set other m with same | ⟨rfl, changed⟩
    · rw [same] at merged
      exact h.members other m' merged
    · rw [changed] at merged
      cases merged
      exact noted

variable [DocumentSource σ]

/-- New configs are noted with no set. -/
theorem afterReading (h : ws.Noted) (known : ws.HasConfig id) : (ws.afterReading id).Noted := by
  have ext := extends_afterReading known
  refine h.of_cells (fun other => ?_) fun set m merged => by rwa [ext.set] at merged
  cases unread : (ws.config id).contents with
  | some c =>
    rw [afterReading_of_read unread]
    exact .inl ⟨rfl, rfl⟩
  | none =>
    -- A cell is that of the config which is read, an older one, or that of a new import.
    rw [config_afterReading known unread]
    by_cases it : other = id
    · rw [if_pos it, it]
      exact .inl ⟨rfl, rfl⟩
    · rw [if_neg it]
      split
      · exact .inl ⟨rfl, rfl⟩
      · rename_i outside
        refine .inr ⟨by rw [config_of_not_hasConfig outside], ?_⟩
        cases made : (ws.firstImports id)[other.index - ws.configs.size]? with
        | none => rfl
        | some cell =>
          obtain ⟨name, -, rfl⟩ := List.mem_map.1 (List.mem_of_getElem? made)
          rfl

omit [DocumentSource σ] in
/-- A new config is noted with no set. -/
theorem insertConfig (h : ws.Noted) {p : ProjectId} {name : String} {origin : ConfigOrigin}
    (done : ws.insertConfig p name origin = .ok (id, ws')) : ws'.Noted := by
  obtain ⟨-, -, cells, -⟩ := insertConfig_eq_ok done
  obtain ⟨-, -, rfl⟩ := eq_of_insertConfig done
  refine h.of_cells (fun other => ?_) fun _ _ merged => merged
  rw [cells]
  by_cases new : other.index = ws.configs.size
  · have outside : ¬ws.HasConfig other := by
      unfold HasConfig
      omega
    rw [if_pos new, config_of_not_hasConfig outside]
    exact .inr ⟨rfl, rfl⟩
  · rw [if_neg new]
    exact .inl ⟨rfl, rfl⟩

/-- Every change leaves sets noted. -/
theorem change (h : ws.Noted) (change : Change ws ws') : ws'.Noted := by
  cases change with
  | elsewhere | project | useProject => exact h.of_configs rfl fun _ _ merged => merged
  | sets sets kept => exact h.of_configs rfl fun set m merged => kept set m merged ▸ merged
  | note set m noted => exact h.noteMerged noted
  | read id known => exact h.afterReading known
  | depend set id own => exact h.addDependent set own
  | forget id =>
    refine h.of_cells (fun other => .inl ?_) fun _ _ merged => merged
    rcases config_updateConfig_cases ws id other _ with same | ⟨rfl, forgotten⟩
    · rw [same]
      exact ⟨rfl, rfl⟩
    · rw [forgotten]
      exact ⟨rfl, rfl⟩
  | insert _ done => exact h.insertConfig done
  | switch p enabled =>
    have switched : (ws.switched p enabled).Noted := h.of_configs rfl fun _ _ merged => merged
    exact enableImports_induction (motive := Noted) h switched fun _ id kept =>
      kept.reloadConfig id

end Noted

/-! ## What sets were merged from -/

/-- Merged views were merged from documents, by the settings that their sets have. -/
def Composed (ws : Workspace σ) : Prop :=
  ∀ set m, (ws.set set).merged = some m → m.IsOfDocuments (ws.set set).settings

namespace Composed

/-- Merged views stay composed where each is kept with its set, or forgotten. -/
theorem of_kept (h : ws.Composed)
    (kept : ∀ set m, (ws'.set set).merged = some m → ws'.set set = ws.set set) : ws'.Composed := by
  intro set m merged
  have same := kept set m merged
  rw [same] at merged ⊢
  exact h set m merged

theorem of_sets (h : ws.Composed) (sets : ws'.sets = ws.sets) : ws'.Composed :=
  h.of_kept fun set _ _ => set_congr sets set

/-- A reload forgets merged views and makes none. -/
theorem reloadConfig (h : ws.Composed) (id : ConfigId) : (ws.reloadConfig id).Composed :=
  h.of_kept fun _ _ merged => (merged_resetSets merged).2

/-- A view that is merged from documents may be noted. -/
theorem noteMerged (h : ws.Composed) {set : SetId} {m : MergedSet ConfigId}
    (merge : m.IsOfDocuments (ws.set set).settings) : (ws.noteMerged set m).Composed := by
  intro other m' merged
  rcases set_noteMerged_cases ws set other m with same | ⟨rfl, changed⟩
  · rw [same] at merged ⊢
    exact h other m' merged
  · rw [changed] at merged ⊢
    cases merged
    exact merge

/-- Every change leaves merged views composed. -/
theorem change [DocumentSource σ] (h : ws.Composed) (change : Change ws ws') : ws'.Composed := by
  cases change with
  | elsewhere | project | useProject | depend | forget => exact h.of_sets rfl
  | sets sets kept => exact h.of_kept kept
  | note set m _ merge => exact h.noteMerged merge
  | read id known => exact h.of_kept fun set _ _ => (extends_afterReading known).set set
  | insert _ done =>
    obtain ⟨-, -, rfl⟩ := eq_of_insertConfig done
    exact h.of_sets rfl
  | switch p enabled =>
    exact enableImports_induction (motive := Composed) h (h.of_sets rfl) fun _ id kept =>
      kept.reloadConfig id

end Composed

/-! ## Whatever has been done -/

/-- What holds whatever has been done: configs hang together, sets are noted with the configs that
they were merged from, and with none that an import made, and their views were merged from
documents. -/
structure Steady (ws : Workspace σ) : Prop extends Grounded ws, Noted ws where
  composed : ws.Composed

namespace Steady

/-- The configs that a set was merged from were made. -/
theorem hasConfig (h : ws.Steady) {set : SetId} {m : MergedSet ConfigId}
    (merged : (ws.set set).merged = some m) {c : ConfigId} (member : c ∈ m.members) :
    ws.HasConfig c := by
  by_contra unknown
  have noted := h.members set m merged c member
  rw [config_of_not_hasConfig unknown] at noted
  cases noted

variable [DocumentSource σ]

theorem change (h : ws.Steady) (change : Change ws ws') : ws'.Steady :=
  ⟨h.toGrounded.change change, h.toNoted.change change, h.composed.change change⟩

theorem changes (h : ws.Steady) (changes : Changes ws ws') : ws'.Steady := by
  induction changes with
  | refl => exact h
  | tail _ step ih => exact ih.change step

theorem reads (h : ws.Steady) (reads : Reads ws ws') : ws'.Steady :=
  h.changes reads.changes

end Steady

/-- A workspace is steady before anything was done. -/
theorem steady_start [DocumentSource σ] (source : σ) : ({ source } : Workspace σ).Steady where
  toGrounded := (sound_start source).grounded
  own := by
    intro id set noted
    cases noted
  members := by
    intro set m merged
    cases merged
  composed := by
    intro set m merged
    cases merged

/-- Whatever has been done, reloads of imported configs included, a workspace is steady. -/
theorem FreelyReachable.steady [DocumentSource σ] [FiniteSource σ] (h : FreelyReachable ws) :
    ws.Steady :=
  h.of_changes steady_start
    (fun _ _ before => ⟨before.congr rfl before.held, ⟨before.own, before.toNoted.members⟩,
      before.composed⟩)
    fun change before => before.change change

end BeanWiring.Workspace
