/-
# Located sets

A project has sets that were added by hand and sets that its locators contributed, and it records
the names of the latter by locator.  When a locator goes, the sets with the names that are recorded
for it go too.  So the record has to follow what becomes of the sets: a set that is removed may be
added again under its name, by hand or by another locator.

Main statements:

* `TracksSets` : what the record of a project is like, preserved by whatever is done to sets;
* `Credits` : sets and who made them, and its step `Credits.operate`;
* `removeDetected_of_operateAll` : which sets go when a locator goes, after any operations.
-/
import BeanWiring.Proofs.Workspace.Detection

namespace BeanWiring

/-! ## Looking up lists -/

namespace Keyed

variable {κ α β : Type} [DecidableEq κ]

/-- To look a key up in a list of pairs is to look up the pair. -/
theorem lookup_eq_get? (k : κ) (xs : List (κ × α)) :
    xs.lookup k = (get? Prod.fst k xs).map Prod.snd := by
  induction xs with
  | nil => rfl
  | cons x xs ih =>
    rw [List.lookup_cons, get?, List.find?_cons]
    by_cases same : x.1 = k
    · rw [decide_eq_true same, beq_iff_eq.2 same.symm]
      rfl
    · rw [decide_eq_false same, beq_false_of_ne (Ne.symm same)]
      exact ih

/-- Values can be looked up before they are exchanged. -/
theorem lookup_map (f : α → β) (k : κ) (xs : List (κ × α)) :
    (xs.map fun x => (x.1, f x.2)).lookup k = (xs.lookup k).map f := by
  induction xs with
  | nil => rfl
  | cons x xs ih =>
    rw [List.map_cons, List.lookup_cons, List.lookup_cons, ih]
    cases k == x.1 <;> rfl

/-- Where no key comes twice, every entry is found. -/
theorem lookup_of_mem {x : κ × α} {xs : List (κ × α)} (once : (xs.map Prod.fst).Nodup)
    (listed : x ∈ xs) : xs.lookup x.1 = some x.2 := by
  rw [lookup_eq_get?, get?_key_of_mem once listed]
  rfl

end Keyed

/-! ## The record of a project -/

namespace ProjectCell

/-- The names of sets that are recorded for a locator. -/
def setsBy (cell : ProjectCell) (locator : String) : List String :=
  (cell.locatedSets.lookup locator).getD []

/-- Lets go of a set, and of its name in the record. -/
def dropSet (name : String) (cell : ProjectCell) : ProjectCell :=
  { cell with
    sets := Keyed.erase Prod.fst name cell.sets
    locatedSets := cell.locatedSets.map fun entry => (entry.1, entry.2.filter (· ≠ name)) }

/-- Lets go of the record for a locator. -/
def forgetLocator (locator : String) (cell : ProjectCell) : ProjectCell :=
  { cell with locatedSets := Keyed.erase Prod.fst locator cell.locatedSets }

/-- Lets go of sets one after the other. -/
def dropSets (names : List String) (cell : ProjectCell) : ProjectCell :=
  names.foldl (fun cell name => cell.dropSet name) cell

variable {cell : ProjectCell} {locator name : String}

/-- A set that is noted comes last among those of its locator. -/
theorem setsBy_noteLocatedSet (cell : ProjectCell) (locator name other : String) :
    (Workspace.noteLocatedSet locator name cell).setsBy other
      = if other = locator then cell.setsBy other ++ [name] else cell.setsBy other := by
  rw [setsBy, Workspace.noteLocatedSet, Keyed.lookup_eq_get?, Keyed.get?_put]
  by_cases same : other = locator
  · rw [if_pos same.symm, if_pos same, setsBy, same]
    rfl
  · rw [if_neg (Ne.symm same), if_neg same, setsBy, ← Keyed.lookup_eq_get?]

/-- A set that is dropped is dropped from every locator. -/
theorem setsBy_dropSet (cell : ProjectCell) (name locator : String) :
    (cell.dropSet name).setsBy locator = (cell.setsBy locator).filter (· ≠ name) := by
  rw [setsBy, dropSet, Keyed.lookup_map, setsBy]
  cases cell.locatedSets.lookup locator <;> rfl

/-- A locator that is forgotten has no sets, and the others keep theirs. -/
theorem setsBy_forgetLocator (cell : ProjectCell) (locator other : String) :
    (cell.forgetLocator locator).setsBy other
      = if other = locator then [] else cell.setsBy other := by
  rw [setsBy, forgetLocator, Keyed.lookup_eq_get?, Keyed.get?_erase]
  by_cases same : other = locator
  · rw [if_pos same, if_pos same]
    rfl
  · rw [if_neg same, if_neg same, ← Keyed.lookup_eq_get?, setsBy]

/-- Dropping sets one after the other leaves those that have none of the names. -/
theorem sets_dropSets (names : List String) (cell : ProjectCell) :
    (cell.dropSets names).sets = cell.sets.filter (·.1 ∉ names) := by
  induction names generalizing cell with
  | nil => simp [dropSets]
  | cons name rest ih =>
    have step : cell.dropSets (name :: rest) = (cell.dropSet name).dropSets rest := rfl
    rw [step, ih, dropSet, Keyed.erase, List.filter_filter]
    refine List.filter_congr fun entry _ => ?_
    simp only [List.mem_cons, not_or, Bool.decide_and, Bool.and_comm]

/-- They are dropped from every locator. -/
theorem setsBy_dropSets (names : List String) (cell : ProjectCell) (locator : String) :
    (cell.dropSets names).setsBy locator = (cell.setsBy locator).filter (· ∉ names) := by
  induction names generalizing cell with
  | nil => simp [dropSets]
  | cons name rest ih =>
    have step : cell.dropSets (name :: rest) = (cell.dropSet name).dropSets rest := rfl
    rw [step, ih, setsBy_dropSet, List.filter_filter]
    refine List.filter_congr fun other _ => ?_
    simp only [List.mem_cons, not_or, Bool.decide_and, Bool.and_comm]

/-- Only names of sets are recorded, each once and for one locator. -/
structure TracksSets (cell : ProjectCell) : Prop where
  locators : (cell.locatedSets.map Prod.fst).Nodup
  listed : ∀ locator, ∀ name ∈ cell.setsBy locator, name ∈ cell.sets.map Prod.fst
  once : ∀ locator, (cell.setsBy locator).Nodup
  apart : ∀ name locator other, name ∈ cell.setsBy locator → name ∈ cell.setsBy other →
    locator = other

namespace TracksSets

/-- A project that notes no sets of locators keeps track of them. -/
theorem nil (cell : ProjectCell) (none : cell.locatedSets = []) : cell.TracksSets := by
  have nothing : ∀ locator, cell.setsBy locator = [] := by
    intro locator
    rw [setsBy, none]
    rfl
  refine ⟨by simp [none], ?_, ?_, ?_⟩
  · intro locator name recorded
    rw [nothing] at recorded
    cases recorded
  · intro locator
    rw [nothing]
    exact List.nodup_nil
  · intro name locator other recorded
    rw [nothing] at recorded
    cases recorded

variable {cell' : ProjectCell} (h : cell.TracksSets)
include h

/-- The record stays one if there are more sets. -/
theorem of_sets (same : cell'.locatedSets = cell.locatedSets)
    (more : cell.sets.map Prod.fst ⊆ cell'.sets.map Prod.fst) : cell'.TracksSets := by
  have by' : ∀ locator, cell'.setsBy locator = cell.setsBy locator := by
    intro locator
    rw [setsBy, same, setsBy]
  refine ⟨same ▸ h.locators, ?_, ?_, ?_⟩
  · intro locator name recorded
    exact more (h.listed locator name (by' locator ▸ recorded))
  · intro locator
    exact by' locator ▸ h.once locator
  · intro name locator other recorded recorded'
    exact h.apart name locator other (by' locator ▸ recorded) (by' other ▸ recorded')

/-- It does so if a set is noted that is listed and that no locator has. -/
theorem noteLocatedSet (there : name ∈ cell.sets.map Prod.fst)
    (new : ∀ other, name ∉ cell.setsBy other) (locator : String) :
    (Workspace.noteLocatedSet locator name cell).TracksSets := by
  have before : ∀ {other recorded}, recorded ∈ (Workspace.noteLocatedSet locator name cell).setsBy
      other → recorded ∈ cell.setsBy other ∨ recorded = name ∧ other = locator := by
    intro other recorded among
    rw [setsBy_noteLocatedSet] at among
    split at among
    · rename_i same
      rcases List.mem_append.1 among with old | new
      · exact .inl old
      · exact .inr ⟨List.mem_singleton.1 new, same⟩
    · exact .inl among
  refine ⟨Keyed.nodup_put _ h.locators, ?_, ?_, ?_⟩
  · intro other recorded among
    rcases before among with old | ⟨rfl, -⟩
    · exact h.listed other recorded old
    · exact there
  · intro other
    rw [setsBy_noteLocatedSet]
    split
    · refine List.nodup_append.2 ⟨h.once other, List.nodup_singleton name, ?_⟩
      rintro recorded old last among rfl
      exact new other (List.mem_singleton.1 among ▸ old)
    · exact h.once other
  · intro recorded other other' among among'
    rcases before among with old | ⟨rfl, rfl⟩
    · rcases before among' with old' | ⟨rfl, -⟩
      · exact h.apart recorded other other' old old'
      · exact absurd old (new other)
    · rcases before among' with old' | ⟨-, rfl⟩
      · exact absurd old' (new other')
      · rfl

/-- And if a set is dropped. -/
theorem dropSet (name : String) : (cell.dropSet name).TracksSets := by
  have before : ∀ {locator recorded}, recorded ∈ (cell.dropSet name).setsBy locator →
      recorded ∈ cell.setsBy locator ∧ recorded ≠ name := by
    intro locator recorded among
    rw [setsBy_dropSet, List.mem_filter] at among
    exact ⟨among.1, of_decide_eq_true among.2⟩
  refine ⟨?_, ?_, ?_, ?_⟩
  · rw [ProjectCell.dropSet, List.map_map]
    exact h.locators
  · intro locator recorded among
    obtain ⟨old, other⟩ := before among
    obtain ⟨entry, held, rfl⟩ := List.mem_map.1 (h.listed locator recorded old)
    exact List.mem_map.2 ⟨entry, List.mem_filter.2 ⟨held, decide_eq_true other⟩, rfl⟩
  · intro locator
    rw [setsBy_dropSet]
    exact (h.once locator).filter _
  · intro recorded locator other among among'
    exact h.apart recorded locator other (before among).1 (before among').1

/-- And if many are dropped. -/
theorem dropSets (names : List String) : (cell.dropSets names).TracksSets := by
  induction names generalizing cell with
  | nil => exact h
  | cons name rest ih => exact ih (h.dropSet name)

/-- And if a locator is forgotten. -/
theorem forgetLocator (locator : String) : (cell.forgetLocator locator).TracksSets := by
  have before : ∀ {other recorded}, recorded ∈ (cell.forgetLocator locator).setsBy other →
      recorded ∈ cell.setsBy other := by
    intro other recorded among
    rw [setsBy_forgetLocator] at among
    split at among
    · cases among
    · exact among
  refine ⟨?_, fun other recorded among => h.listed other recorded (before among), ?_, ?_⟩
  · exact h.locators.sublist (List.filter_sublist.map _)
  · intro other
    rw [setsBy_forgetLocator]
    split
    · exact List.nodup_nil
    · exact h.once other
  · intro recorded other other' among among'
    exact h.apart recorded other other' (before among) (before among')

/-- What is recorded for a locator is its entry in the record. -/
theorem setsBy_of_mem {entry : String × List String} (recorded : entry ∈ cell.locatedSets) :
    cell.setsBy entry.1 = entry.2 := by
  rw [setsBy, Keyed.lookup_of_mem h.locators recorded]
  rfl

/-- No name is recorded twice, neither for one locator nor for two. -/
theorem nodup_flatMap : (cell.locatedSets.flatMap Prod.snd).Nodup := by
  rw [List.nodup_flatMap]
  constructor
  · intro entry recorded
    exact h.setsBy_of_mem recorded ▸ h.once entry.1
  · refine (List.pairwise_map.1 h.locators).imp_of_mem ?_
    intro entry other there there' differ name among among'
    rw [← h.setsBy_of_mem there] at among
    rw [← h.setsBy_of_mem there'] at among'
    exact differ (h.apart name _ _ among among')

end TracksSets

end ProjectCell

namespace Workspace

variable {σ : Type} {ws ws' : Workspace σ} {p : ProjectId}

/-! ## Operations on sets -/

/-- A set that is added is made, and the project has it last. -/
theorem addSet_eq_ok (inside : ws.HasProject p) {name : String} {id : SetId}
    (done : ws.addSet p name = .ok (id, ws')) :
    name ∉ (ws.project p).sets.map Prod.fst ∧ id.index = ws.sets.size ∧
      ws'.sets.size = ws.sets.size + 1 ∧ ws'.HasProject p ∧
      ws'.project p
        = { ws.project p with sets := (ws.project p).sets ++ [(name, id)] } := by
  obtain ⟨free, rfl, rfl⟩ := eq_of_addSet done
  have absent : name ∉ (ws.project p).sets.map Prod.fst :=
    mt Keyed.lookup_isSome_iff_mem.2 (Bool.eq_false_iff.1 free)
  refine ⟨absent, rfl, Array.size_push _, hasProject_updateProject.2 inside, ?_⟩
  have there : (ws.newSet { name, project := p }).2.HasProject p := inside
  have cell := project_updateProject there p
    fun cell => { cell with sets := cell.sets ++ [(name, (⟨ws.sets.size⟩ : SetId))] }
  rw [if_pos rfl] at cell
  exact cell

/-- A set that a locator adds is made like any other, and then recorded. -/
theorem addLocatedSet_eq_ok (inside : ws.HasProject p) {locator name : String} {id : SetId}
    (done : ws.addLocatedSet p locator name = .ok (id, ws')) :
    ∃ added, ws.addSet p name = .ok (id, added) ∧ ws'.sets = added.sets ∧ ws'.HasProject p ∧
      ws'.project p = noteLocatedSet locator name (added.project p) := by
  obtain ⟨added, first, rfl⟩ := eq_of_addLocatedSet done
  obtain ⟨-, -, -, there, -⟩ := addSet_eq_ok inside first
  refine ⟨added, first, rfl, hasProject_updateProject.2 there, ?_⟩
  rw [project_updateProject there, if_pos rfl]

/-- To remove a set is to drop it from its project. -/
theorem project_removeSet (inside : ws.HasProject p) (name : String) :
    (ws.removeSet p name).2.project p = (ws.project p).dropSet name := by
  rw [removeSet, project_updateProject inside, if_pos rfl]
  rfl

theorem removeSets (inside : ws.HasProject p) (names : List String) :
    let after := names.foldl (fun ws name => (ws.removeSet p name).2) ws
    after.sets = ws.sets ∧ after.HasProject p ∧
      after.project p = (ws.project p).dropSets names := by
  induction names generalizing ws with
  | nil => exact ⟨rfl, inside, rfl⟩
  | cons name rest ih =>
    have left : (ws.removeSet p name).2.HasProject p := hasProject_updateProject.2 inside
    obtain ⟨sets, there, cell⟩ := ih left
    refine ⟨sets, there, ?_⟩
    rw [List.foldl_cons, cell, project_removeSet inside]
    rfl

/-- When a locator goes, so do the sets that are recorded for it. -/
theorem project_removeDetected (inside : ws.HasProject p) (locator : String) :
    (ws.removeDetected p locator).sets.size = ws.sets.size ∧
      (ws.removeDetected p locator).HasProject p ∧
      ∃ configs, (ws.removeDetected p locator).project p
        = (({ ws.project p with configs } : ProjectCell).forgetLocator locator).dropSets
          ((ws.project p).setsBy locator) := by
  have released := releases_removeConfigs ws p (ws.detectedBy p locator)
  let ws₁ := ws.removeConfigs p (ws.detectedBy p locator)
  have inside₁ : ws₁.HasProject p := released.hasProject inside
  have cell₁ : ws₁.project p = { ws.project p with configs := (ws₁.project p).configs } := by
    rw [released.project, if_pos rfl]
    rfl
  let ws₂ := ws₁.updateProject p (.forgetLocator locator)
  have inside₂ : ws₂.HasProject p := hasProject_updateProject.2 inside₁
  obtain ⟨sets, there, cell⟩ := removeSets inside₂ ((ws₁.project p).setsBy locator)
  refine ⟨?_, there, (ws₁.project p).configs, cell.trans ?_⟩
  · exact (congrArg Array.size sets).trans released.setsSize
  · rw [project_updateProject inside₁, if_pos rfl, cell₁]
    rfl

/-! ### Operations on configs -/

/-- The sets of a project and its record of them are what they were. -/
structure SameSets (ws ws' : Workspace σ) (p : ProjectId) : Prop where
  inside : ws'.HasProject p
  size : ws'.sets.size = ws.sets.size
  sets : (ws'.project p).sets = (ws.project p).sets
  locatedSets : (ws'.project p).locatedSets = (ws.project p).locatedSets

/-- Adding a config leaves the lists of sets alone. -/
theorem sameSets_addConfig (inside : ws.HasProject p) {name : String} {id : ConfigId}
    (done : ws.addConfig p name = .ok (id, ws')) : SameSets ws ws' p := by
  obtain ⟨-, -, rfl⟩ := eq_of_insertConfig done
  have there : (ws.newConfig { name, project := p }).2.HasProject p := inside
  have cell := project_updateProject there p
    fun cell => { cell with configs := cell.configs ++ [(name, (⟨ws.configs.size⟩ : ConfigId))] }
  rw [if_pos rfl] at cell
  have sets := congrArg ProjectCell.sets cell
  have locatedSets := congrArg ProjectCell.locatedSets cell
  exact ⟨hasProject_updateProject.2 inside, rfl, sets, locatedSets⟩

/-- Letting configs go leaves them alone. -/
theorem Releases.sameSets {names : List String} (h : Releases ws ws' p names)
    (inside : ws.HasProject p) : SameSets ws ws' p := by
  have cell := h.project p
  rw [if_pos rfl] at cell
  exact ⟨h.hasProject inside, h.setsSize, by rw [cell, ProjectCell.letGo],
    by rw [cell, ProjectCell.letGo]⟩

/-- So does exchanging what a locator found. -/
theorem Detects.sameSets {locator : String} {found : List String}
    (h : Detects ws ws' p locator found) (inside : ws.HasProject p) : SameSets ws ws' p := by
  have cell := h.project p
  rw [if_pos rfl] at cell
  refine ⟨?_, by rw [h.rest], by rw [cell], by rw [cell]⟩
  unfold HasProject
  rw [h.size]
  exact inside

/-- So does removing a config, whether there is one or not. -/
theorem sameSets_removeConfig (inside : ws.HasProject p) (name : String) :
    SameSets ws (ws.removeConfig p name).2 p := by
  by_cases there : ws.hasConfig p name = true
  · exact (releases_removeConfig there).sameSets inside
  · rw [removeConfig, if_neg there]
    exact ⟨inside, rfl, rfl, rfl⟩

/-- And replacing what a locator found. -/
theorem sameSets_replaceDetected (inside : ws.HasProject p) (locator : String)
    (names : List String) : SameSets ws (ws.replaceDetected p locator names).2 p := by
  let stale := (ws.detectedBy p locator).filter fun name => !names.contains name
  have released := (releases_removeConfigs ws p stale).sameSets inside
  have added := (detects_addDetected released.inside locator names).2.sameSets released.inside
  exact ⟨added.inside, added.size.trans released.size, added.sets.trans released.sets,
    added.locatedSets.trans released.locatedSets⟩

end Workspace

/-! ## Operations on a project -/

/-- What can be done to the configs and the sets of a project. -/
inductive ProjectOperation where
  | addSet (name : String)
  | addLocatedSet (locator name : String)
  | removeSet (name : String)
  | removeDetected (locator : String)
  | addConfig (name : String)
  | removeConfig (name : String)
  | replaceDetected (locator : String) (names : List String)

namespace Workspace

variable {σ : Type} {ws ws' : Workspace σ} {p : ProjectId}

/-- Does something to a project.  If this makes a set, the set is listed together with the locator
that contributed it, or with none if it was added by hand. -/
def operate (p : ProjectId) (ws : Workspace σ) :
    ProjectOperation → Workspace σ × List (Option String × SetId)
  | .addSet name =>
    match ws.addSet p name with
    | .ok (id, ws) => (ws, [(none, id)])
    | .error _ => (ws, [])
  | .addLocatedSet locator name =>
    match ws.addLocatedSet p locator name with
    | .ok (id, ws) => (ws, [(some locator, id)])
    | .error _ => (ws, [])
  | .removeSet name => ((ws.removeSet p name).2, [])
  | .removeDetected locator => (ws.removeDetected p locator, [])
  | .addConfig name =>
    match ws.addConfig p name with
    | .ok (_, ws) => (ws, [])
    | .error _ => (ws, [])
  | .removeConfig name => ((ws.removeConfig p name).2, [])
  | .replaceDetected locator names => ((ws.replaceDetected p locator names).2, [])

/-- Does one thing after the other, and lists all sets that were made. -/
def operateAll (p : ProjectId) (ws : Workspace σ) :
    List ProjectOperation → Workspace σ × List (Option String × SetId)
  | [] => (ws, [])
  | operation :: rest =>
    let (ws, made) := ws.operate p operation
    let (ws, others) := ws.operateAll p rest
    (ws, made ++ others)

/-- The sets of a project, and a list of sets with those who made them.  Every set of the project
is listed with one maker, and its name is recorded for this one if it is a locator. -/
structure Credits (ws : Workspace σ) (p : ProjectId) (made : List (Option String × SetId)) :
    Prop where
  inside : ws.HasProject p
  tracks : (ws.project p).TracksSets
  credited : ∀ entry ∈ (ws.project p).sets, ∃ maker, (maker, entry.2) ∈ made ∧
    (∀ other, (other, entry.2) ∈ made → other = maker) ∧
    ∀ locator, entry.1 ∈ (ws.project p).setsBy locator ↔ maker = some locator
  known : ∀ entry ∈ made, ws.HasSet entry.2

namespace Credits

variable {made : List (Option String × SetId)} (h : Credits ws p made)
include h

/-- Sets that are dropped need no maker any more, and the others keep theirs. -/
theorem of_drop (inside : ws'.HasProject p) (size : ws'.sets.size = ws.sets.size)
    (tracks : (ws'.project p).TracksSets)
    (sets : ∀ entry ∈ (ws'.project p).sets, entry ∈ (ws.project p).sets ∧ ∀ locator,
      (entry.1 ∈ (ws'.project p).setsBy locator ↔ entry.1 ∈ (ws.project p).setsBy locator)) :
    Credits ws' p made where
  inside := inside
  tracks := tracks
  credited := by
    intro entry listed
    obtain ⟨before, same⟩ := sets entry listed
    simp only [same]
    exact h.credited entry before
  known := by
    intro entry listed
    unfold HasSet
    rw [size]
    exact h.known entry listed

/-- Sets stay credited where the lists of sets stay as they are. -/
theorem of_sameSets (same : SameSets ws ws' p) : Credits ws' p made := by
  have tracks : (ws'.project p).TracksSets :=
    h.tracks.of_sets same.locatedSets (same.sets ▸ List.Subset.refl _)
  refine h.of_drop same.inside same.size tracks fun entry listed => ⟨same.sets ▸ listed, ?_⟩
  intro locator
  rw [ProjectCell.setsBy, same.locatedSets, ProjectCell.setsBy]

/-- And where a set is removed. -/
theorem removeSet (name : String) : Credits (ws.removeSet p name).2 p made := by
  have cell := project_removeSet h.inside name
  refine h.of_drop (hasProject_updateProject.2 h.inside) rfl (cell ▸ h.tracks.dropSet name)
    fun entry listed => ?_
  rw [cell] at listed
  obtain ⟨before, other⟩ := List.mem_filter.1 listed
  refine ⟨before, fun locator => ?_⟩
  rw [cell, ProjectCell.setsBy_dropSet, List.mem_filter, and_iff_left other]

/-- What a locator leaves are the sets that it has not made. -/
theorem sets_removeDetected (locator : String) :
    ((ws.removeDetected p locator).project p).sets
      = (ws.project p).sets.filter fun entry => (some locator, entry.2) ∉ made := by
  obtain ⟨-, -, configs, cell⟩ := project_removeDetected h.inside locator
  rw [cell, ProjectCell.sets_dropSets]
  refine List.filter_congr fun entry listed => ?_
  obtain ⟨maker, there, only, recorded⟩ := h.credited entry listed
  have same : entry.1 ∈ (ws.project p).setsBy locator ↔ (some locator, entry.2) ∈ made := by
    rw [recorded]
    constructor
    · rintro rfl
      exact there
    · exact fun among => (only _ among).symm
  simp only [same]

/-- And where a locator is removed with its sets. -/
theorem removeDetected (locator : String) : Credits (ws.removeDetected p locator) p made := by
  obtain ⟨size, inside, configs, cell⟩ := project_removeDetected h.inside locator
  have tracks : (({ ws.project p with configs } : ProjectCell)).TracksSets :=
    h.tracks.of_sets rfl (List.Subset.refl _)
  refine h.of_drop inside size (cell ▸ (tracks.forgetLocator locator).dropSets _)
    fun entry listed => ?_
  rw [cell, ProjectCell.sets_dropSets] at listed
  obtain ⟨before, left⟩ := List.mem_filter.1 listed
  refine ⟨before, fun other => ?_⟩
  rw [cell, ProjectCell.setsBy_dropSets, ProjectCell.setsBy_forgetLocator, List.mem_filter,
    and_iff_left left]
  by_cases same : other = locator
  · -- What is left has not been recorded for the locator.
    rw [if_pos same, same]
    exact iff_of_false List.not_mem_nil (of_decide_eq_true left)
  · rw [if_neg same]
    rfl

/-- A new set is credited to its maker. -/
theorem of_add {maker : Option String} {name : String} {id : SetId} (inside : ws'.HasProject p)
    (new : name ∉ (ws.project p).sets.map Prod.fst) (last : id.index = ws.sets.size)
    (size : ws'.sets.size = ws.sets.size + 1) (tracks : (ws'.project p).TracksSets)
    (sets : (ws'.project p).sets = (ws.project p).sets ++ [(name, id)])
    (recorded : ∀ locator other, other ∈ (ws'.project p).setsBy locator ↔
      other ∈ (ws.project p).setsBy locator ∨ other = name ∧ maker = some locator) :
    Credits ws' p (made ++ [(maker, id)]) where
  inside := inside
  tracks := tracks
  credited := by
    -- The id was not given to any set before.
    have fresh : ∀ owner, (owner, id) ∉ made := by
      intro owner among
      exact Nat.ne_of_lt (h.known _ among) last
    intro entry listed
    rw [sets] at listed
    rcases List.mem_append.1 listed with old | this
    · obtain ⟨owner, there, only, before⟩ := h.credited entry old
      refine ⟨owner, List.mem_append_left _ there, fun other among => ?_, fun locator => ?_⟩
      · rcases List.mem_append.1 among with among | among
        · exact only other among
        · have same := congrArg Prod.snd (List.mem_singleton.1 among)
          exact absurd there ((same : entry.2 = id) ▸ fresh owner)
      · have other : entry.1 ≠ name := fun same => new (same ▸ List.mem_map_of_mem old)
        rw [recorded, before, or_iff_left fun both => other both.1]
    · cases List.mem_singleton.1 this
      refine ⟨maker, List.mem_append_right _ (List.mem_singleton_self _), fun other among => ?_,
        fun locator => ?_⟩
      · rcases List.mem_append.1 among with among | among
        · exact absurd among (fresh other)
        · exact congrArg Prod.fst (List.mem_singleton.1 among)
      · have unrecorded : name ∉ (ws.project p).setsBy locator :=
          fun among => new (h.tracks.listed locator name among)
        rw [recorded, or_iff_right unrecorded, and_iff_right rfl]
  known := by
    intro entry listed
    unfold HasSet
    rw [size]
    rcases List.mem_append.1 listed with old | this
    · exact Nat.lt_succ_of_lt (h.known entry old)
    · rw [List.mem_singleton.1 this]
      exact last ▸ Nat.lt_succ_self _

/-- A set that is added on its own is credited to no locator. -/
theorem addSet {name : String} {id : SetId} (done : ws.addSet p name = .ok (id, ws')) :
    Credits ws' p (made ++ [(none, id)]) := by
  obtain ⟨new, last, size, inside, cell⟩ := addSet_eq_ok h.inside done
  refine h.of_add inside new last size ?_ (by rw [cell]) fun locator other => ?_
  · rw [cell]
    exact h.tracks.of_sets rfl (by simp)
  · rw [cell]
    simp [ProjectCell.setsBy]

/-- A set of a locator is credited to it. -/
theorem addLocatedSet {locator name : String} {id : SetId}
    (done : ws.addLocatedSet p locator name = .ok (id, ws')) :
    Credits ws' p (made ++ [(some locator, id)]) := by
  obtain ⟨added, before, sets, inside, cell⟩ := addLocatedSet_eq_ok h.inside done
  obtain ⟨new, last, size, -, cell'⟩ := addSet_eq_ok h.inside before
  have by' : ∀ other, (added.project p).setsBy other = (ws.project p).setsBy other := by
    intro other
    rw [cell', ProjectCell.setsBy, ProjectCell.setsBy]
  have unrecorded : ∀ other, name ∉ (added.project p).setsBy other := by
    intro other among
    exact new (h.tracks.listed other name (by' other ▸ among))
  have tracks : (added.project p).TracksSets := by
    rw [cell']
    exact h.tracks.of_sets rfl (by simp)
  refine h.of_add inside new last (sets ▸ size) ?_ ?_ fun other recorded => ?_
  · rw [cell]
    exact tracks.noteLocatedSet (by rw [cell']; simp) unrecorded locator
  · rw [cell, noteLocatedSet, cell']
  · rw [cell, ProjectCell.setsBy_noteLocatedSet, ← by']
    by_cases same : other = locator
    · simp [same]
    · simp [same, Ne.symm same]

/-! ### Steps and runs -/

/-- Whatever is done to the project, sets are credited to those who made them. -/
theorem operate (operation : ProjectOperation) :
    Credits (ws.operate p operation).1 p (made ++ (ws.operate p operation).2) := by
  cases operation with
  | addSet name =>
    rw [Workspace.operate]
    cases done : ws.addSet p name with
    | ok result => exact h.addSet done
    | error _ => exact (List.append_nil made).symm ▸ h
  | addLocatedSet locator name =>
    rw [Workspace.operate]
    cases done : ws.addLocatedSet p locator name with
    | ok result => exact h.addLocatedSet done
    | error _ => exact (List.append_nil made).symm ▸ h
  | removeSet name => exact (List.append_nil made).symm ▸ h.removeSet name
  | removeDetected locator => exact (List.append_nil made).symm ▸ h.removeDetected locator
  | addConfig name =>
    rw [Workspace.operate]
    cases done : ws.addConfig p name with
    | ok result =>
      exact (List.append_nil made).symm ▸ h.of_sameSets (sameSets_addConfig h.inside done)
    | error _ => exact (List.append_nil made).symm ▸ h
  | removeConfig name =>
    exact (List.append_nil made).symm ▸ h.of_sameSets (sameSets_removeConfig h.inside name)
  | replaceDetected locator names =>
    exact (List.append_nil made).symm ▸
      h.of_sameSets (sameSets_replaceDetected h.inside locator names)

/-- After any operations, the sets that they made are credited. -/
theorem operateAll (operations : List ProjectOperation) :
    Credits (ws.operateAll p operations).1 p (made ++ (ws.operateAll p operations).2) := by
  induction operations generalizing ws made with
  | nil => exact (List.append_nil made).symm ▸ h
  | cons operation rest ih =>
    rw [Workspace.operateAll, ← List.append_assoc]
    exact ih (h.operate operation)

end Credits

/-- A project that has just been put in use has no sets. -/
theorem credits_useProject (ws : Workspace σ) {cell : ProjectCell} (noSets : cell.sets = [])
    (noRecord : cell.locatedSets = []) :
    Credits (ws.useProject cell).2 (ws.useProject cell).1 [] := by
  have new : (ws.useProject cell).2.project (ws.useProject cell).1 = cell := by
    refine (project_push ws cell ⟨ws.projects.size⟩).trans ?_
    rw [if_pos rfl]
  refine ⟨?_, ?_, ?_, ?_⟩
  · show ws.projects.size < (ws.projects.push cell).size
    rw [Array.size_push]
    exact Nat.lt_succ_self _
  · rw [new]
    exact .nil cell noRecord
  · intro entry listed
    rw [new, noSets] at listed
    cases listed
  · intro entry listed
    cases listed

/-- **Located sets.**  Whatever is done to the configs and the sets of a project, only names of sets
that it has are recorded for its locators, and each name once and for one locator.  Every set is
one that was made once, by hand or by one locator.  When a locator goes, exactly the sets that it
made go, of those that are left: none that was added by hand or by another, though it may have a
name that the locator used before. -/
theorem removeDetected_of_operateAll (ws : Workspace σ) (name : String) (reader : DocumentReader)
    (namespaces : Namespaces) (settings : ProjectSettings) (operations : List ProjectOperation) :
    let start := ws.useProject { name, reader, namespaces, settings }
    let ws' := (start.2.operateAll start.1 operations).1
    let made := (start.2.operateAll start.1 operations).2
    let cell := ws'.project start.1
    (∀ entry ∈ cell.locatedSets, ∀ recorded ∈ entry.2, recorded ∈ cell.sets.map Prod.fst) ∧
      (cell.locatedSets.map Prod.fst).Nodup ∧ (cell.locatedSets.flatMap Prod.snd).Nodup ∧
      (∀ entry ∈ cell.sets, ∃! maker, (maker, entry.2) ∈ made) ∧
      ∀ locator, ((ws'.removeDetected start.1 locator).project start.1).sets
        = cell.sets.filter fun entry => (some locator, entry.2) ∉ made := by
  intro start ws' made cell
  have credits : Credits ws' start.1 made :=
    (credits_useProject ws rfl rfl).operateAll operations
  have tracks : cell.TracksSets := credits.tracks
  refine ⟨fun entry listed recorded among => ?_, tracks.locators, tracks.nodup_flatMap,
    fun entry listed => ?_, credits.sets_removeDetected⟩
  · exact tracks.listed entry.1 recorded (tracks.setsBy_of_mem listed ▸ among)
  · obtain ⟨maker, there, only, -⟩ := credits.credited entry listed
    exact ⟨maker, there, only⟩

/-- A set that was added again by hand stays when the locator goes that added it first. -/
example :
    let start := ({ source := {} } : Workspace DocumentStore).useProject { name := "demo" }
    ((start.2.operateAll start.1 [.addLocatedSet "local" "all", .removeSet "all", .addSet "all",
      .addLocatedSet "local" "more", .removeDetected "local"]).1.project start.1).sets
        = [("all", ⟨1⟩)] := by
  decide +kernel

end Workspace

end BeanWiring
