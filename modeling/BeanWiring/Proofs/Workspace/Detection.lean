/-
# Located configs

A locator is asked again and again which configs there are, and what it finds is exchanged for what
it had found before.  Configs that were added by hand or found by another locator have no part in
this, and a config that is found again is the config that it was, with all that was read of it.

Main statements:

* `detects_addDetected` : how newly found configs are added;
* `replaceDetected_exchanges` : what becomes of every config, and of the members of sets.
-/
import BeanWiring.Proofs.Keyed
import BeanWiring.Proofs.Workspace.Holdings

namespace BeanWiring.Workspace

variable {σ : Type} {ws ws' ws'' : Workspace σ} {p : ProjectId} {locator : String}
  {found : List String}

/-! ## Adding what was found -/

/-- A config as a locator finds it. -/
def detectedCell (p : ProjectId) (locator name : String) : ConfigCell :=
  { name, origin := .detected locator, project := p }

/-- The ids of the configs that are made next. -/
def nextIds (ws : Workspace σ) (n : Nat) : List ConfigId :=
  (List.range' ws.configs.size n).map ConfigId.mk

/-- Names and the ids that are given to them. -/
theorem mem_zip_nextIds {entry : String × ConfigId}
    (listed : entry ∈ found.zip (ws.nextIds found.length)) :
    ∃ i, ∃ inside : i < found.length, entry = (found[i], ⟨ws.configs.size + i⟩) := by
  obtain ⟨i, inside, rfl⟩ := List.getElem_of_mem listed
  rw [List.length_zip] at inside
  refine ⟨i, by omega, ?_⟩
  rw [List.getElem_zip]
  simp [nextIds]

/-- Configs that a locator has found were made, and a project holds them last. -/
structure Detects (ws ws' : Workspace σ) (p : ProjectId) (locator : String)
    (found : List String) : Prop where
  configs : ws'.configs = ws.configs ++ found.map (detectedCell p locator)
  project : ∀ q, ws'.project q = if q = p
    then { ws.project p with
      configs := (ws.project p).configs ++ found.zip (ws.nextIds found.length) }
    else ws.project q
  size : ws'.projects.size = ws.projects.size
  rest : ws' = { ws with configs := ws'.configs, projects := ws'.projects }

namespace Detects

variable (h : Detects ws ws' p locator found)
include h

/-- The configs made before a detection stay, and behind them come those that were found. -/
theorem config_eq_ite (id : ConfigId) : ws'.config id
    = if id.index < ws.configs.size then ws.config id
      else ((found.map (detectedCell p locator))[id.index - ws.configs.size]?).getD {} := by
  rw [← config_append]
  exact config_congr h.configs id

/-- The configs that there were are what they were. -/
theorem config {id : ConfigId} (known : ws.HasConfig id) : ws'.config id = ws.config id := by
  rw [h.config_eq_ite, if_pos (show id.index < ws.configs.size from known)]

/-- The others are as the locator found them. -/
theorem config_new {entry : String × ConfigId}
    (listed : entry ∈ found.zip (ws.nextIds found.length)) :
    ¬ws.HasConfig entry.2 ∧ ws'.HasConfig entry.2 ∧
      ws'.config entry.2 = detectedCell p locator entry.1 := by
  obtain ⟨i, inside, rfl⟩ := mem_zip_nextIds listed
  have size : ws'.configs.size = ws.configs.size + found.length := by
    rw [h.configs, size_append, List.length_map]
  have after : ¬ws.configs.size + i < ws.configs.size := Nat.not_lt.2 (Nat.le_add_right _ _)
  refine ⟨after, ?_, ?_⟩
  · show ws.configs.size + i < ws'.configs.size
    omega
  · rw [h.config_eq_ite, if_neg after]
    simp [inside]

end Detects

theorem detects_nil (ws : Workspace σ) (p : ProjectId) (locator : String) :
    Detects ws ws p locator [] where
  configs := by simp
  project := by
    intro q
    by_cases same : q = p
    · simp [same]
    · rw [if_neg same]
  size := rfl
  rest := rfl

/-- A config that is found first is made first. -/
theorem Detects.cons (others : Detects ws' ws'' p locator found) {name : String}
    (configs : ws'.configs = ws.configs.push (detectedCell p locator name))
    (project : ∀ q, ws'.project q = if q = p
      then { ws.project p with
        configs := (ws.project p).configs ++ [(name, ⟨ws.configs.size⟩)] }
      else ws.project q)
    (size : ws'.projects.size = ws.projects.size)
    (rest : ws' = { ws with configs := ws'.configs, projects := ws'.projects }) :
    Detects ws ws'' p locator (name :: found) where
  configs := by
    rw [others.configs, configs, List.map_cons]
    simp
  project := by
    intro q
    have ids : ws.nextIds (found.length + 1)
        = (⟨ws.configs.size⟩ : ConfigId) :: ws'.nextIds found.length := by
      rw [nextIds, nextIds, configs, Array.size_push, List.range'_succ, List.map_cons]
    rw [others.project, project, project, if_pos rfl]
    by_cases same : q = p
    · simp only [if_pos same, List.length_cons, ids, List.zip_cons_cons, List.append_assoc,
        List.singleton_append]
    · simp only [if_neg same]
  size := others.size.trans size
  rest := by
    rw [others.rest, rest]

/-- A locator's configs are added under the names that are free, each once and in order. -/
theorem detects_addDetected (inside : ws.HasProject p) (locator : String) (names : List String) :
    let found := Keyed.distinct (names.filter fun name => !ws.hasConfig p name)
    (ws.addDetected p locator names).1 = found ∧
      Detects ws (ws.addDetected p locator names).2 p locator found := by
  induction names generalizing ws with
  | nil => exact ⟨rfl, detects_nil ws p locator⟩
  | cons name rest ih =>
    by_cases taken : ws.hasConfig p name = true
    · rw [List.filter_cons_of_neg (by simp [taken]), addDetected, insertConfig, if_pos taken]
      exact ih inside
    · let new := detectedCell p locator name
      let ws' := (ws.newConfig new).2.updateProject p fun cell =>
        { cell with configs := cell.configs ++ [(name, ⟨ws.configs.size⟩)] }
      have inserted :
          ws.insertConfig p name (.detected locator) = .ok (⟨ws.configs.size⟩, ws') := by
        rw [insertConfig, if_neg taken]
        rfl
      have project : ∀ q, ws'.project q = if q = p
          then { ws.project p with
            configs := (ws.project p).configs ++ [(name, ⟨ws.configs.size⟩)] }
          else ws.project q :=
        fun q => project_updateProject (show (ws.newConfig new).2.HasProject p from inside) q _
      have size : ws'.projects.size = ws.projects.size := Array.size_modify
      have held : ∀ other, ws'.hasConfig p other = (ws.hasConfig p other || other = name) := by
        intro other
        rw [Bool.eq_iff_iff, Bool.or_eq_true, hasConfig_iff, hasConfig_iff, project, if_pos rfl]
        simp
      -- Once the first is there, its name is not free any more.
      have found : Keyed.distinct ((name :: rest).filter fun other => !ws.hasConfig p other)
          = name :: Keyed.distinct (rest.filter fun other => !ws'.hasConfig p other) := by
        rw [List.filter_cons_of_pos (by simp [taken]), Keyed.distinct, ← Keyed.distinct_filter,
          List.filter_filter]
        congr 2
        refine List.filter_congr fun other _ => ?_
        rw [held, Bool.not_or, Bool.and_comm, decide_not]
      have inside' : ws'.HasProject p := show _ < _ from size ▸ inside
      obtain ⟨listed, others⟩ := ih inside'
      rw [found, addDetected, inserted]
      exact ⟨congrArg (name :: ·) listed, others.cons rfl project size rfl⟩

/-- Where no name is free, nothing is added. -/
theorem addDetected_of_held {names : List String}
    (held : ∀ name ∈ names, ws.hasConfig p name = true) :
    ws.addDetected p locator names = ([], ws) := by
  induction names with
  | nil => rfl
  | cons name rest ih =>
    rw [addDetected, insertConfig, if_pos (held name List.mem_cons_self)]
    exact ih fun other listed => held other (List.mem_cons_of_mem name listed)

/-! ## Exchanging what was found -/

/-- A config that a locator had found and does not find any more. -/
def isStale (ws : Workspace σ) (locator : String) (names : List String)
    (entry : String × ConfigId) : Bool :=
  (ws.config entry.2).origin = .detected locator ∧ entry.1 ∉ names

/-- The names of the configs of a project that a locator does not find any more. -/
def staleNames (ws : Workspace σ) (p : ProjectId) (locator : String) (names : List String) :
    List String :=
  ((ws.project p).configs.filter (ws.isStale locator names)).map Prod.fst

/-- What a project holds, and has in its sets, once a locator has found other names. -/
structure Exchanges (ws ws' : Workspace σ) (p : ProjectId) (locator : String)
    (names added : List String) : Prop where
  /-- Every config stays the config that it is: with its origin and with what was read of it. -/
  cells : ∀ id, ws.HasConfig id → ws'.config id = ws.config id
  /-- What is not stale is found under its name as before. -/
  kept : ∀ entry ∈ (ws.project p).configs, ws.isStale locator names entry = false →
    ws'.configOf? p entry.1 = some entry.2
  /-- What is stale is gone, also from the sets. -/
  stale : ∀ entry ∈ (ws.project p).configs, ws.isStale locator names entry = true →
    ws'.hasConfig p entry.1 = false ∧
      ∀ set ∈ ws'.setsOf p, ws'.hasMember set entry.1 = false
  /-- The names are added that no config had, each once and in order. -/
  fresh : added = Keyed.distinct (names.filter fun name => !ws.hasConfig p name)
  /-- The project holds what it goes on to hold, followed by new configs with these names. -/
  held : ∃ ids : List ConfigId, ids.length = added.length ∧
    (ws'.project p).configs
      = ((ws.project p).configs.filter fun entry => !ws.isStale locator names entry)
        ++ added.zip ids ∧
    ∀ entry ∈ added.zip ids, ¬ws.HasConfig entry.2 ∧ ws'.HasConfig entry.2 ∧
      ws'.config entry.2 = { name := entry.1, origin := .detected locator, project := p }
  /-- The sets of the project drop the stale names and nothing else.  All other sets, and those
  that have no such member, stay as they are. -/
  sets : ∀ set, ws'.set set = if set ∈ ws.setsOf p
    then (ws.set set).dropMembers (ws.staleNames p locator names) else ws.set set
  /-- Otherwise the projects are what they were. -/
  projects : ∀ q, ws'.project q = if q = p
    then { ws.project p with configs := (ws'.project p).configs } else ws.project q
  rest : ws' = { ws with
    configs := ws'.configs, sets := ws'.sets, projects := ws'.projects }

variable {names : List String}

/-! ### Stale names -/

/-- What is removed first are the configs with stale names. -/
theorem stale_eq_staleNames :
    (ws.detectedBy p locator).filter (fun name => !names.contains name)
      = ws.staleNames p locator names := by
  rw [detectedBy, staleNames, List.filter_map, List.filter_filter]
  congr 1
  refine List.filter_congr fun entry _ => ?_
  simp [isStale, Bool.and_comm]

/-- The stale names are those of the stale entries. -/
theorem mem_staleNames (holds : ws.Holds) {entry : String × ConfigId}
    (listed : entry ∈ (ws.project p).configs) :
    entry.1 ∈ ws.staleNames p locator names ↔ ws.isStale locator names entry = true := by
  rw [staleNames, List.mem_map]
  constructor
  · rintro ⟨other, there, same⟩
    obtain ⟨held, isStale⟩ := List.mem_filter.1 there
    exact holds.once p entry listed other held same ▸ isStale
  · exact fun isStale => ⟨entry, List.mem_filter.2 ⟨listed, isStale⟩, rfl⟩

/-- Stale names are names of configs, and are not found. -/
theorem of_mem_staleNames {name : String} (stale : name ∈ ws.staleNames p locator names) :
    ws.hasConfig p name = true ∧ name ∉ names := by
  obtain ⟨entry, there, rfl⟩ := List.mem_map.1 stale
  obtain ⟨held, isStale⟩ := List.mem_filter.1 there
  exact ⟨hasConfig_iff.2 (List.mem_map.2 ⟨entry, held, rfl⟩), (of_decide_eq_true isStale).2⟩

/-! ### The exchange -/

section Exchange

variable (released : Releases ws ws' p (ws.staleNames p locator names))
  (detects : Detects ws' ws'' p locator found)

include released in
/-- No name is found that has become free. -/
theorem free_of_releases : (names.filter fun name => !ws'.hasConfig p name)
    = names.filter fun name => !ws.hasConfig p name := by
  refine List.filter_congr fun name there => congrArg _ ?_
  rw [Bool.eq_iff_iff, released.hasConfig, and_iff_left]
  exact fun stale => (of_mem_staleNames stale).2 there

include released detects

/-- After an exchange, a project has the configs that are not stale, and behind them those that were
found. -/
theorem configs_of_exchange (holds : ws.Holds) : (ws''.project p).configs
    = ((ws.project p).configs.filter fun entry => !ws.isStale locator names entry)
      ++ found.zip (ws'.nextIds found.length) := by
  rw [detects.project, if_pos rfl, released.project, if_pos rfl]
  refine congrArg (· ++ _) (List.filter_congr fun entry listed => ?_)
  simp only [mem_staleNames holds listed]
  cases ws.isStale locator names entry <;> rfl

/-- An exchange changes the configs of its project and nothing else of projects. -/
theorem project_of_exchange (q : ProjectId) : ws''.project q = if q = p
    then { ws.project p with configs := (ws''.project p).configs } else ws.project q := by
  rw [detects.project, detects.project, if_pos rfl, released.project, released.project, if_pos rfl]
  by_cases same : q = p
  · rw [if_pos same, if_pos same]
    rfl
  · rw [if_neg same, if_neg same, if_neg same]

/-- A stale name is not found, so it is that of no config any more. -/
theorem hasConfig_of_exchange (holds : ws.Holds) (among : found ⊆ names)
    {entry : String × ConfigId} (listed : entry ∈ (ws.project p).configs)
    (isStale : ws.isStale locator names entry = true) : ws''.hasConfig p entry.1 = false := by
  rw [Bool.eq_false_iff, Ne, hasConfig_iff, configs_of_exchange released detects holds,
    List.mem_map]
  rintro ⟨other, there, same⟩
  rcases List.mem_append.1 there with old | new
  · obtain ⟨held, kept⟩ := List.mem_filter.1 old
    rw [holds.once p entry listed other held same, isStale] at kept
    cases kept
  · exact (of_decide_eq_true isStale).2 (same ▸ among (List.of_mem_zip new).1)

/-- Stale configs are released, and then those are added that were found. -/
theorem exchanges_of_detects (holds : ws.Holds) (holds' : ws''.Holds)
    (fresh : found = Keyed.distinct (names.filter fun name => !ws.hasConfig p name)) :
    Exchanges ws ws'' p locator names found := by
  have held := configs_of_exchange released detects holds
  have project := project_of_exchange released detects
  have known : ∀ id, ws'.HasConfig id ↔ ws.HasConfig id := by
    intro id
    rw [HasConfig, released.configs, HasConfig]
  have sameSets : ws''.sets = ws'.sets := by rw [detects.rest]
  have among : found ⊆ names := by
    intro name there
    rw [fresh, Keyed.mem_distinct] at there
    exact (List.mem_filter.1 there).1
  constructor
  case cells =>
    intro id there
    rw [detects.config ((known id).2 there), config_congr released.configs]
  case kept =>
    intro entry listed kept
    rw [holds'.configOf?, held]
    exact List.mem_append_left _ (List.mem_filter.2 ⟨listed, by rw [kept]; rfl⟩)
  case stale =>
    intro entry listed isStale
    refine ⟨hasConfig_of_exchange released detects holds among listed isStale, ?_⟩
    intro set within
    rw [setsOf, project, if_pos rfl] at within
    rw [hasMember, set_congr sameSets]
    exact released.hasMember within ((mem_staleNames holds listed).2 isStale)
  case fresh => exact fresh
  case held =>
    refine ⟨ws'.nextIds found.length, by simp [nextIds], held, fun entry listed => ?_⟩
    obtain ⟨unknown, made, cell⟩ := detects.config_new listed
    exact ⟨fun there => unknown ((known _).2 there), made, cell⟩
  case sets =>
    intro set
    rw [set_congr sameSets, released.sets]
  case projects => exact project
  case rest => rw [detects.rest, released.rest]

end Exchange

/-! ### The same names once more -/

namespace Exchanges

variable {added : List String} (h : Exchanges ws ws' p locator names added)
include h

/-- What the project holds now is found. -/
theorem staleNames_eq_nil (holds : ws.Holds) : ws'.staleNames p locator names = [] := by
  rw [staleNames, List.map_eq_nil_iff, List.filter_eq_nil_iff]
  intro entry listed stale
  obtain ⟨ids, -, held, -⟩ := h.held
  rw [held] at listed
  rcases List.mem_append.1 listed with old | new
  · obtain ⟨there, kept⟩ := List.mem_filter.1 old
    have same : ws'.isStale locator names entry = ws.isStale locator names entry := by
      rw [isStale, h.cells entry.2 (holds.own p entry there).1, isStale]
    rw [← same, stale] at kept
    cases kept
  · have among := (List.of_mem_zip new).1
    rw [h.fresh, Keyed.mem_distinct] at among
    exact (of_decide_eq_true stale).2 (List.mem_filter.1 among).1

/-- Every name that was found is one of a config. -/
theorem hasConfig {name : String} (found : name ∈ names) : ws'.hasConfig p name = true := by
  by_cases before : ws.hasConfig p name = true
  · obtain ⟨entry, listed, rfl⟩ := List.mem_map.1 (hasConfig_iff.1 before)
    have kept : ws.isStale locator names entry = false := by simp [isStale, found]
    exact Option.isSome_iff_exists.2 ⟨_, h.kept entry listed kept⟩
  · obtain ⟨ids, length, held, -⟩ := h.held
    have new : name ∈ added := by
      rw [h.fresh, Keyed.mem_distinct, List.mem_filter]
      exact ⟨found, by simp [before]⟩
    rw [hasConfig_iff, held, List.map_append, List.map_fst_zip (Nat.le_of_eq length.symm)]
    exact List.mem_append_right _ new

/-- An exchange done again finds nothing new and drops nothing. -/
theorem again (holds : ws.Holds) : ws'.replaceDetected p locator names = ([], ws') := by
  rw [replaceDetected, stale_eq_staleNames, h.staleNames_eq_nil holds]
  exact addDetected_of_held fun _ => h.hasConfig

end Exchanges

/-- **Located configs.**  When a locator has found other names, then every config that was added by
hand, was found by another locator or is found again stays as it is.  What is not found any more is
gone, also as a member of sets.  The names that no config had are added, each once and in the order
in which they were found, and these are the names that are listed.  To exchange the same names once
more lists nothing and changes nothing. -/
theorem replaceDetected_exchanges [DocumentSource σ] [FiniteSource σ]
    (reachable : FreelyReachable ws) (inside : ws.HasProject p) (locator : String)
    (names : List String) :
    let added := (ws.replaceDetected p locator names).1
    let ws' := (ws.replaceDetected p locator names).2
    Exchanges ws ws' p locator names added ∧
      ws'.replaceDetected p locator names = ([], ws') := by
  intro added ws'
  have released : Releases ws (ws.removeConfigs p (ws.staleNames p locator names)) p
      (ws.staleNames p locator names) := by
    have all := releases_removeConfigs ws p (ws.staleNames p locator names)
    rwa [List.filter_eq_self.2 fun name stale => (of_mem_staleNames stale).1] at all
  have replaced : (ws.removeConfigs p (ws.staleNames p locator names)).addDetected p locator names
      = (added, ws') := by
    rw [← stale_eq_staleNames]
    rfl
  obtain ⟨listed, detects⟩ := detects_addDetected (released.hasProject inside) locator names
  rw [free_of_releases released, replaced] at listed detects
  rw [← listed] at detects
  have reachable' : FreelyReachable ws' :=
    reachable.management (.replaceDetected ws p locator names)
  have exchanges : Exchanges ws ws' p locator names added :=
    exchanges_of_detects released detects reachable.holds reachable'.holds listed
  exact ⟨exchanges, exchanges.again reachable.holds⟩

/-! ### Two locators -/

/-- A project with a config that was added by hand, one that one locator has found, and two that
another has. -/
def located : Workspace DocumentStore :=
  let ws : Workspace DocumentStore := { source := {} }
  let ws := (ws.useProject { name := "demo" }).2.addConfigs ⟨0⟩ ["manual.xml"]
  let ws := (ws.replaceDetected ⟨0⟩ "first" ["first.xml"]).2
  (ws.replaceDetected ⟨0⟩ "second" ["old.xml", "again.xml"]).2

theorem reachable_located : Reachable located := by
  have empty : Reachable ({ source := {} } : Workspace DocumentStore) := .start _
  have used := empty.management (.useProject _ "demo" .markup {} {})
  have manual := used.management (.addConfigs _ ⟨0⟩ ["manual.xml"])
  exact (manual.management (.replaceDetected _ _ _ _)).management (.replaceDetected _ _ _ _)

/-- The last two are in a set, which has been merged. -/
def locatedInSet : Workspace DocumentStore :=
  match located.addSet ⟨0⟩ "all" with
  | .ok (id, ws) =>
    ((members id).run ((ws.addMember id "old.xml").2.addMember id "again.xml").2).2
  | .error _ => located

theorem reachable_locatedInSet : Reachable locatedInSet := by
  have added := reachable_located.management
    (.addSet (show addSet _ ⟨0⟩ "all" = .ok (⟨0⟩, _) from rfl))
  have full := (added.content (.addMember _ ⟨0⟩ "old.xml")).content (.addMember _ ⟨0⟩ "again.xml")
  exact full.content (.query (.members _ ⟨0⟩ (by decide)))

/-- The second locator finds one of its configs again, and three names of which one is new. -/
theorem names_replaceDetected_locatedInSet :
    let found := ["new.xml", "manual.xml", "again.xml", "first.xml", "new.xml"]
    let ws' := (locatedInSet.replaceDetected ⟨0⟩ "second" found).2
    (locatedInSet.replaceDetected ⟨0⟩ "second" found).1 = ["new.xml"] ∧
      (ws'.project ⟨0⟩).configs.map Prod.fst
        = ["manual.xml", "first.xml", "again.xml", "new.xml"] ∧
      ws'.configOf? ⟨0⟩ "again.xml" = some ⟨3⟩ ∧ (ws'.config ⟨3⟩).contents.isSome = true ∧
      (ws'.config ⟨0⟩).origin = .manual ∧ (ws'.set ⟨0⟩).settings.members = ["again.xml"] ∧
      ws'.replaceDetected ⟨0⟩ "second" found = ([], ws') := by
  intro found ws'
  obtain ⟨exchanges, again⟩ := replaceDetected_exchanges reachable_locatedInSet.freely
    (show locatedInSet.HasProject ⟨0⟩ by decide) "second" found
  refine ⟨exchanges.fresh.trans (by decide +kernel), by decide +kernel,
    exchanges.kept ("again.xml", ⟨3⟩) (by decide +kernel) (by decide +kernel), ?_, ?_, ?_, again⟩
  · rw [exchanges.cells ⟨3⟩ (by decide +kernel)]
    decide +kernel
  · rw [exchanges.cells ⟨0⟩ (by decide +kernel)]
    decide +kernel
  · rw [exchanges.sets ⟨0⟩]
    decide +kernel

end BeanWiring.Workspace
