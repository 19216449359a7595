/-
# What happens in the model

Whatever is done to a workspace, one thing at most happens in its model, and the listeners that
there are at that time are told of it: of a change to the list of projects by one event, and of what
is reset by as many as there are.

Main statements:

* `Model.Happens` : what can happen, with the events that are told;
* `Model.Happens.effective` : an event about the list of projects is told exactly if it changes;
* `ContentStep.tells`, `ManagementStep.happens` : what happens in each step;
* `Reachable.orderly` : what holds of the model of every workspace that can come about.
-/
import BeanWiring.Proofs.Workspace.Holdings
import BeanWiring.Proofs.Workspace.Resets

namespace BeanWiring

/-! ## What is seen of the model -/

/-- Whether the model is open, and the projects in it by name. -/
structure ModelView where
  isOpen : Bool := false
  projects : List String := []
deriving DecidableEq

/-- What is seen after an event, as the event tells it. -/
def ModelView.note (view : ModelView) : ModelEvent → ModelView
  | .opened => { view with isOpen := true }
  | .closed => { isOpen := false, projects := [] }
  | .projectAdded name => { view with projects := view.projects ++ [name] }
  | .projectRemoved name => { view with projects := view.projects.filter (· ≠ name) }
  | .configReset _ _ | .setReset _ _ => view

/-- What is seen after events, one after the other. -/
def ModelView.replay (view : ModelView) (events : List ModelEvent) : ModelView :=
  events.foldl note view

/-- A replica fed two batches of events ends where the second batch takes it from the first. -/
theorem ModelView.replay_append (view : ModelView) (events more : List ModelEvent) :
    view.replay (events ++ more) = (view.replay events).replay more :=
  List.foldl_append

/-- Resets show nothing of the model. -/
theorem ModelView.replay_of_resets (view : ModelView) {events : List ModelEvent}
    (resets : ∀ event ∈ events, event.isReset = true) : view.replay events = view := by
  induction events with
  | nil => rfl
  | cons event rest ih =>
    have first : view.note event = view := by
      have reset := resets event List.mem_cons_self
      cases event with
      | configReset | setReset => rfl
      | opened | closed | projectAdded | projectRemoved => cases reset
    rw [replay, List.foldl_cons, first]
    exact ih fun other listed => resets other (List.mem_cons_of_mem event listed)

namespace Model

/-- What is seen of the model now. -/
def view (m : Model) : ModelView :=
  { isOpen := m.isOpen, projects := m.projects.map Prod.fst }

/-- Telling events changes the log only, not what a listener can see of the model. -/
theorem view_tell (m : Model) (events : List ModelEvent) : (m.tell events).view = m.view := by
  rw [tell_eq, view, view]

/-- Opening a closed model fires one event. -/
theorem opened_of_closed {m : Model} (isClosed : m.isOpen = false) :
    m.opened = { m with isOpen := true }.fire .opened := by
  rw [opened, isClosed]
  rfl

/-- Closing an open model forgets its projects and fires one event. -/
theorem closed_of_open {m : Model} (isOpen : m.isOpen = true) :
    m.closed = { m with isOpen := false, projects := [] }.fire .closed := by
  rw [closed, isOpen]
  rfl

/-! ## Happenings -/

/-- What can happen in the model, and the events that are told of it. -/
inductive Happens : Model → List ModelEvent → Model → Prop
  /-- Something is reset, or nothing happens. -/
  | reset (m : Model) {events : List ModelEvent}
      (resets : ∀ event ∈ events, event.isReset = true) : Happens m events (m.tell events)
  | opened {m : Model} (isClosed : m.isOpen = false) : Happens m [.opened] m.opened
  | closed {m : Model} (isOpen : m.isOpen = true) : Happens m [.closed] m.closed
  | projectAdded {m : Model} {name : String} (p : ProjectId) (isOpen : m.isOpen = true)
      (free : name ∉ m.projects.map Prod.fst) :
      Happens m [.projectAdded name]
        ({ m with projects := m.projects ++ [(name, p)] }.fire (.projectAdded name))
  | projectRemoved {m : Model} {name : String} (isOpen : m.isOpen = true)
      (listed : name ∈ m.projects.map Prod.fst) :
      Happens m [.projectRemoved name]
        ({ m with projects := Keyed.erase Prod.fst name m.projects }.fire (.projectRemoved name))

namespace Happens

variable {m m' : Model} {events : List ModelEvent}

theorem nothing (m : Model) : Happens m [] m :=
  .reset m fun _ none => nomatch none

/-- The listeners that there are beforehand are told, and nobody else. -/
theorem deliveries (h : Happens m events m') :
    m'.deliveries = m.deliveries ++ events.flatMap fun event => m.listeners.map (·, event) := by
  cases h with
  | reset resets => rw [tell_eq]
  | opened isClosed => simp [opened_of_closed isClosed, fire]
  | closed isOpen => simp [closed_of_open isOpen, fire]
  | projectAdded | projectRemoved => simp [fire]

/-- Listeners neither come nor go. -/
theorem listeners (h : Happens m events m') :
    m'.listeners = m.listeners ∧ m'.subscriptions = m.subscriptions := by
  cases h with
  | reset resets =>
    rw [tell_eq]
    exact ⟨rfl, rfl⟩
  | opened isClosed =>
    rw [opened_of_closed isClosed]
    exact ⟨rfl, rfl⟩
  | closed isOpen =>
    rw [closed_of_open isOpen]
    exact ⟨rfl, rfl⟩
  | projectAdded | projectRemoved => exact ⟨rfl, rfl⟩

/-- What is told shows what has become of the model. -/
theorem view_eq (h : Happens m events m') : m'.view = m.view.replay events := by
  cases h with
  | reset resets => rw [view_tell, ModelView.replay_of_resets _ resets]
  | opened isClosed =>
    rw [opened_of_closed isClosed]
    rfl
  | closed isOpen =>
    rw [closed_of_open isOpen]
    rfl
  | projectAdded => simp [fire, view, ModelView.replay, ModelView.note]
  | @projectRemoved name =>
    have names : (Keyed.erase Prod.fst name m.projects).map Prod.fst
        = (m.projects.map Prod.fst).filter (· ≠ name) := by
      rw [Keyed.erase, List.filter_map]
      rfl
    rw [view, fire, names]
    rfl

/-- An event about the model itself is told exactly if something changes there, and then no other
event is. -/
theorem effective (h : Happens m events m') :
    (m'.view = m.view ∧ ∀ event ∈ events, event.isReset = true) ∨
      m'.view ≠ m.view ∧ ∃ event, events = [event] ∧ event.isReset = false := by
  have seen := h.view_eq
  cases h with
  | reset resets => exact .inl ⟨view_tell m events, resets⟩
  | opened isClosed =>
    refine .inr ⟨fun same => ?_, _, rfl, rfl⟩
    have isOpen : true = m.isOpen := congrArg ModelView.isOpen (seen.symm.trans same)
    rw [isClosed] at isOpen
    cases isOpen
  | closed isOpen =>
    refine .inr ⟨fun same => ?_, _, rfl, rfl⟩
    have isClosed : false = m.isOpen := congrArg ModelView.isOpen (seen.symm.trans same)
    rw [isOpen] at isClosed
    cases isClosed
  | projectAdded p isOpen free =>
    refine .inr ⟨fun same => ?_, _, rfl, rfl⟩
    have longer := congrArg List.length (congrArg ModelView.projects same)
    simp [fire, view] at longer
  | @projectRemoved name isOpen listed =>
    refine .inr ⟨fun same => ?_, _, rfl, rfl⟩
    have kept : m.view.projects.filter (· ≠ name) = m.view.projects :=
      congrArg ModelView.projects (seen.symm.trans same)
    have other := List.filter_eq_self.1 kept name listed
    exact of_decide_eq_true other rfl

end Happens

/-! ## Order in the model -/

/-- A closed model has no projects, and an open one has each name once.  Listeners were given ids
one after the other, and only listeners have been told of anything. -/
structure Orderly (m : Model) : Prop where
  closed : m.isOpen = false → m.projects = []
  projects : (m.projects.map Prod.fst).Nodup
  listeners : m.listeners.Nodup
  earlier : ∀ listener ∈ m.listeners, listener.index < m.subscriptions
  told : ∀ delivery ∈ m.deliveries, delivery.1.index < m.subscriptions

/-- The new model is orderly. -/
theorem orderly_start : ({} : Model).Orderly where
  closed := fun _ => rfl
  projects := List.nodup_nil
  listeners := List.nodup_nil
  earlier := fun _ none => nomatch none
  told := fun _ none => nomatch none

/-- Whatever happens, the model stays in order. -/
theorem Happens.orderly {m m' : Model} {events : List ModelEvent} (h : Happens m events m')
    (before : m.Orderly) : m'.Orderly := by
  obtain ⟨listeners, subscriptions⟩ := h.listeners
  have told : ∀ delivery ∈ m'.deliveries, delivery.1.index < m'.subscriptions := by
    intro delivery listed
    rw [h.deliveries] at listed
    rw [subscriptions]
    rcases List.mem_append.1 listed with old | new
    · exact before.told delivery old
    · obtain ⟨event, -, listed⟩ := List.mem_flatMap.1 new
      obtain ⟨listener, listens, rfl⟩ := List.mem_map.1 listed
      exact before.earlier listener listens
  suffices projects : (m'.isOpen = false → m'.projects = []) ∧ (m'.projects.map Prod.fst).Nodup from
    ⟨projects.1, projects.2, listeners ▸ before.listeners,
      listeners ▸ subscriptions ▸ before.earlier, told⟩
  cases h with
  | reset resets =>
    rw [tell_eq]
    exact ⟨before.closed, before.projects⟩
  | opened isClosed =>
    rw [opened_of_closed isClosed]
    exact ⟨fun isClosed => (nomatch isClosed), before.projects⟩
  | closed isOpen =>
    rw [closed_of_open isOpen]
    exact ⟨fun _ => rfl, List.nodup_nil⟩
  | projectAdded p isOpen free =>
    refine ⟨fun isClosed => ?_, ?_⟩
    · rw [fire, isOpen] at isClosed
      cases isClosed
    · rw [fire, List.map_append]
      refine List.nodup_append.2 ⟨before.projects, List.nodup_singleton _, ?_⟩
      rintro other listed _ new rfl
      cases List.mem_singleton.1 new
      exact free listed
  | projectRemoved isOpen listed =>
    refine ⟨fun isClosed => ?_, ?_⟩
    · rw [fire, isOpen] at isClosed
      cases isClosed
    · exact before.projects.sublist (List.filter_sublist.map _)

namespace Orderly

variable {m : Model} (before : m.Orderly)
include before

/-- A new listener is given an id that no listener has had. -/
theorem subscribe : m.subscribe.2.Orderly where
  closed := before.closed
  projects := before.projects
  listeners := by
    refine List.nodup_append.2 ⟨before.listeners, List.nodup_singleton _, ?_⟩
    rintro listener listed _ new rfl
    cases List.mem_singleton.1 new
    exact Nat.lt_irrefl _ (before.earlier _ listed)
  earlier := by
    intro listener listed
    rcases List.mem_append.1 listed with old | new
    · exact Nat.lt_succ_of_lt (before.earlier listener old)
    · cases List.mem_singleton.1 new
      exact Nat.lt_succ_self _
  told := fun delivery listed => Nat.lt_succ_of_lt (before.told delivery listed)

/-- A listener that leaves keeps the model orderly. -/
theorem unsubscribe (listener : ListenerId) : (m.unsubscribe listener).2.Orderly where
  closed := before.closed
  projects := before.projects
  listeners := before.listeners.sublist List.filter_sublist
  earlier := fun other listed => before.earlier other (List.mem_of_mem_filter listed)
  told := before.told

end Orderly

end Model

namespace Workspace

variable {σ : Type} {ws ws' : Workspace σ}

/-! ## Steps -/

/-- Reloading a config by itself leaves the model alone. -/
theorem model_reloadConfig (ws : Workspace σ) (id : ConfigId) :
    (ws.reloadConfig id).model = ws.model := by
  rw [reloadConfig, resetSets_rest]
  rfl

/-- Switching the imports of a project leaves the model alone. -/
theorem model_enableImports (ws : Workspace σ) (p : ProjectId) (enabled : Bool) :
    (ws.enableImports p enabled).model = ws.model := by
  exact enableImports_induction (motive := fun ws' => ws'.model = ws.model) rfl rfl
    fun ws' id same => (model_reloadConfig ws' id).trans same

/-- Entering a config leaves the model alone: no event is fired for it. -/
theorem model_insertConfig {p : ProjectId} {name : String} {origin : ConfigOrigin} {id : ConfigId}
    (done : ws.insertConfig p name origin = .ok (id, ws')) : ws'.model = ws.model := by
  obtain ⟨-, -, rfl⟩ := eq_of_insertConfig done
  rfl

/-- Adding a set leaves the model alone. -/
theorem model_addSet {p : ProjectId} {name : String} {id : SetId}
    (done : ws.addSet p name = .ok (id, ws')) : ws'.model = ws.model := by
  obtain ⟨-, -, rfl⟩ := eq_of_addSet done
  rfl

theorem model_addConfigs (p : ProjectId) (names : List String) (ws : Workspace σ) :
    (ws.addConfigs p names).model = ws.model :=
  addConfigs_preserves (P := fun after => after.model = ws.model)
    (fun added same => (model_insertConfig added).trans same) names rfl

theorem model_addDetected (p : ProjectId) (locator : String) (names : List String)
    (ws : Workspace σ) : (ws.addDetected p locator names).2.model = ws.model :=
  addDetected_preserves (P := fun after => after.model = ws.model)
    (fun added same => (model_insertConfig added).trans same) names rfl

/-- Releasing configs leaves the model alone. -/
theorem Releases.model {p : ProjectId} {names : List String} (h : Releases ws ws' p names) :
    ws'.model = ws.model := by
  rw [h.rest]

theorem model_removeDetected (p : ProjectId) (locator : String) (ws : Workspace σ) :
    (ws.removeDetected p locator).model = ws.model :=
  removeDetected_preserves (P := fun after => after.model = ws.model)
    (fun names same => (releases_removeConfigs _ p names).model.trans same) (fun same => same)
    (fun _ same => same) rfl

/-- Adding the set of a locator leaves the model alone. -/
theorem model_addLocatedSet {p : ProjectId} {locator name : String} {id : SetId}
    (done : ws.addLocatedSet p locator name = .ok (id, ws')) : ws'.model = ws.model := by
  obtain ⟨added, first, rfl⟩ := eq_of_addLocatedSet done
  have same : added.model = ws.model := model_addSet first
  exact same

/-- An exchange of detected configs leaves the model alone. -/
theorem model_replaceDetected (p : ProjectId) (locator : String) (names : List String)
    (ws : Workspace σ) : (ws.replaceDetected p locator names).2.model = ws.model :=
  (model_addDetected p locator names _).trans (releases_removeConfigs ws p _).model

/-- Adding a project fires one event that names it. -/
theorem happens_addProject {p : ProjectId} (done : ws.addProject p = .ok ws') :
    ws.model.Happens [.projectAdded (ws.project p).name] ws'.model := by
  obtain ⟨isOpen, free, rfl⟩ := eq_of_addProject done
  exact .projectAdded p isOpen free

/-- Removing a project fires one event with its name. -/
theorem happens_removeProject {name : String} {p : ProjectId}
    (done : ws.removeProject name = .ok (p, ws')) :
    ws.model.Happens [.projectRemoved name] ws'.model := by
  obtain ⟨isOpen, found, rfl⟩ := eq_of_removeProject done
  refine .projectRemoved isOpen (Keyed.lookup_isSome_iff_mem.1 ?_)
  rw [found]
  rfl

/-- Opening the model fires one event if it was closed, none otherwise. -/
theorem happens_openModel (ws : Workspace σ) :
    ws.model.Happens (if ws.model.isOpen then [] else [.opened]) ws.openModel.model := by
  cases isOpen : ws.model.isOpen with
  | true =>
    have same : ws.model.opened = ws.model := by rw [Model.opened, if_pos isOpen]
    rw [openModel, same]
    exact .nothing ws.model
  | false => exact .opened isOpen

/-- Closing the model fires one event if it was open, none otherwise. -/
theorem happens_closeModel (ws : Workspace σ) :
    ws.model.Happens (if ws.model.isOpen then [.closed] else []) ws.closeModel.model := by
  cases isOpen : ws.model.isOpen with
  | true => exact .closed isOpen
  | false =>
    have same : ws.model.closed = ws.model := by
      rw [Model.closed, isOpen]
      rfl
    rw [closeModel, same]
    exact .nothing ws.model

/-- A reload inside the model fires the resets of the sets and of the config it touches. -/
theorem happens_reloadInModel (ws : Workspace σ) (p : ProjectId) (id : ConfigId) :
    ws.model.Happens (ws.resetEvents p id) (ws.reloadInModel p id).model := by
  rw [model_reloadInModel]
  exact .reset ws.model fun _ => isReset_of_mem_resetEvents

section Source

variable [DocumentSource σ]

/-- Reading a set leaves the model alone, whatever it has to read for that. -/
theorem model_readSet [FiniteSource σ] (sound : ws.Sound) (id : SetId) :
    ((readSet id).run ws).2.model = ws.model := by
  cases merged : (ws.set id).merged with
  | some m => rw [readSet_of_merged merged]
  | none =>
    obtain ⟨ext, -⟩ := sound.mergeSet id
    rw [run_readSet_of_unmerged merged]
    exact (congrArg Workspace.model ext.rest :)

/-- A round of refreshes fires resets only. -/
theorem tells_refreshConfigs (entries : List (ProjectId × ConfigId)) (names : List String)
    (ws : Workspace σ) :
    ∃ events, (∀ event ∈ events, event.isReset = true) ∧
      (entries.foldl refreshConfig (names, ws)).2.model = ws.model.tell events := by
  induction entries generalizing ws names with
  | nil => exact ⟨[], fun _ none => (nomatch none), rfl⟩
  | cons entry rest ih =>
    rw [List.foldl_cons, refreshConfig]
    by_cases changed : ws.hasChanged entry.2 = true
    · rw [if_pos changed]
      obtain ⟨events, resets, model⟩ := ih (names ++ [_]) (ws.reloadInModel entry.1 entry.2)
      refine ⟨ws.resetEvents entry.1 entry.2 ++ events, fun event listed => ?_, ?_⟩
      · rcases List.mem_append.1 listed with first | later
        · exact isReset_of_mem_resetEvents first
        · exact resets event later
      · rw [Model.tell_append, ← model_reloadInModel]
        exact model
    · rw [if_neg changed]
      exact ih names ws

/-- In a change of content, at most resets are told. -/
theorem ContentStep.tells [FiniteSource σ] (step : ContentStep ws ws') (sound : ws.Sound) :
    ∃ events, (∀ event ∈ events, event.isReset = true) ∧ ws'.model = ws.model.tell events := by
  have nothing : ws'.model = ws.model →
      ∃ events, (∀ event ∈ events, event.isReset = true) ∧ ws'.model = ws.model.tell events :=
    fun same => ⟨[], fun _ none => (nomatch none), same⟩
  cases step with
  | documents source => exact nothing rfl
  | reloadConfig id own => exact nothing (model_reloadConfig ws id)
  | reload name done =>
    obtain ⟨p, c, -, rfl⟩ := eq_of_reload done
    exact ⟨_, fun _ => isReset_of_mem_resetEvents, model_reloadInModel ws p c⟩
  | refresh names done =>
    rw [refresh_eq_ok done]
    exact tells_refreshConfigs ws.modelConfigs [] ws
  | enableImports p enabled => exact nothing (model_enableImports ws p enabled)
  | addMember id name =>
    refine nothing ?_
    unfold Workspace.addMember
    split
    · rfl
    · rfl
  | removeMember id name =>
    refine nothing ?_
    unfold Workspace.removeMember
    split
    · rfl
    · rfl
  | allowBeanOverriding | allowAliasOverriding | markIncomplete | resetSet => exact nothing rfl
  | query step =>
    rcases step.effect sound.toWired with reads | ⟨id, rfl⟩
    · exact nothing (congrArg Workspace.model reads.toExtends.rest :)
    · exact nothing (model_readSet sound id)

omit [DocumentSource σ] in
/-- In a step of management one thing at most happens in the model, or a listener comes or goes. -/
theorem ManagementStep.happens (step : ManagementStep ws ws') :
    (∃ events, ws.model.Happens events ws'.model) ∨ ws'.model = ws.model.subscribe.2 ∨
      ∃ listener, ws'.model = (ws.model.unsubscribe listener).2 := by
  have nothing : ws'.model = ws.model → (∃ events, ws.model.Happens events ws'.model) ∨
      ws'.model = ws.model.subscribe.2 ∨
      ∃ listener, ws'.model = (ws.model.unsubscribe listener).2 :=
    fun same => .inl ⟨[], same ▸ .nothing ws.model⟩
  cases step with
  | useProject | dropProject => exact nothing rfl
  | addConfig done => exact nothing (model_insertConfig done)
  | addConfigs p names => exact nothing (model_addConfigs p names ws)
  | removeConfig p name =>
    refine nothing ?_
    by_cases there : ws.hasConfig p name = true
    · exact (releases_removeConfig there).model
    · rw [Workspace.removeConfig, if_neg there]
  | replaceDetected p locator names =>
    exact nothing (model_replaceDetected p locator names ws)
  | removeDetected p locator => exact nothing (model_removeDetected p locator ws)
  | addSet done => exact nothing (model_addSet done)
  | addLocatedSet done => exact nothing (model_addLocatedSet done)
  | removeSet p name => exact nothing rfl
  | openModel => exact .inl ⟨_, happens_openModel ws⟩
  | closeModel => exact .inl ⟨_, happens_closeModel ws⟩
  | addProject done => exact .inl ⟨_, happens_addProject done⟩
  | removeProject done => exact .inl ⟨_, happens_removeProject done⟩
  | subscribe => exact .inr (.inl rfl)
  | unsubscribe listener => exact .inr (.inr ⟨listener, rfl⟩)

/-- The model is in order whatever has been done. -/
theorem Reachable.orderly [FiniteSource σ] (h : Reachable ws) : ws.model.Orderly := by
  induction h with
  | start source => exact Model.orderly_start
  | content before step ih =>
    obtain ⟨events, resets, model⟩ := step.tells before.sound
    rw [model]
    exact (Model.Happens.reset _ resets).orderly ih
  | management _ step ih =>
    rcases step.happens with ⟨events, happens⟩ | subscribed | ⟨listener, unsubscribed⟩
    · exact happens.orderly ih
    · exact subscribed ▸ ih.subscribe
    · exact unsubscribed ▸ ih.unsubscribe listener

end Source

end Workspace

end BeanWiring
