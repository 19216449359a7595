/-
# Replay

A listener that stays knows the model from what it is told: whether it is open, and the projects in
it, in order.  Each call tells what it has changed, once, and nothing if it has changed nothing.

Main statements:

* `due` : what the listeners are told of a call;
* `happens_carryOut` : a call does to the model what they are told of it;
* `replay_of_course` : what a listener has been told shows the model, at every moment.
-/
import BeanWiring.Proofs.Workspace.Managed

namespace BeanWiring

namespace Model

variable {m m' : Model} {listener : ListenerId} {events : List ModelEvent}

/-! ## What a listener is told -/

/-- What is told later is added to what a listener was told. -/
theorem eventsFor_append {told : List (ListenerId × ModelEvent)} (listener : ListenerId)
    (later : m'.deliveries = m.deliveries ++ told) :
    m'.eventsFor listener
      = m.eventsFor listener ++ (told.filter fun d => d.1 = listener).map Prod.snd := by
  rw [eventsFor, later, List.filter_append, List.map_append, eventsFor]

/-- Who listens is told of all that happens, once and in order. -/
theorem Happens.eventsFor (h : Happens m events m') (once : m.listeners.Nodup)
    (listening : listener ∈ m.listeners) :
    m'.eventsFor listener = m.eventsFor listener ++ events := by
  have each : ∀ event : ModelEvent, ((m.listeners.map (·, event)).filter
      fun d => d.1 = listener).map Prod.snd = [event] := by
    intro event
    have one : (m.listeners.filter fun other => other = listener) = [listener] := by
      rw [List.filter_eq, List.count_eq_one_of_mem once listening, List.replicate_one]
    rw [List.filter_map]
    exact congrArg (List.map Prod.snd ∘ List.map (·, event)) one
  rw [eventsFor_append listener h.deliveries, List.filter_flatMap, List.map_flatMap]
  simp only [each, List.flatMap_singleton']

/-- Nobody was told of anything before there was a listener. -/
theorem Orderly.eventsFor_subscribe (h : m.Orderly) :
    m.subscribe.2.eventsFor m.subscribe.1 = [] := by
  rw [Model.eventsFor, List.map_eq_nil_iff, List.filter_eq_nil_iff]
  intro delivery listed same
  have earlier := h.told delivery listed
  rw [of_decide_eq_true same] at earlier
  exact Nat.lt_irrefl _ earlier

end Model

/-- Whether a listener comes or goes by a call. -/
def ManagementCall.isSubscription : ManagementCall → Bool
  | subscribe | unsubscribe _ => true
  | _ => false

/-- Whether configs are read again after a call. -/
def ManagementCall.rereads : ManagementCall → Bool
  | reload _ | refresh => true
  | _ => false

namespace Workspace

variable {σ : Type} [DocumentSource σ] {ws ws' ws'' : Workspace σ} {call : ManagementCall}
  {e : ModelError} {listener : ListenerId}

/-! ## What calls tell -/

/-- What the listeners are to be told of a call. -/
def due (ws : Workspace σ) : ManagementCall → List ModelEvent
  | .openModel => if ws.model.isOpen then [] else [.opened]
  | .closeModel => if ws.model.isOpen then [.closed] else []
  | .addProject p =>
    if ws.model.isOpen ∧ (ws.project p).name ∉ ws.projectNames then
      [.projectAdded (ws.project p).name]
    else []
  | .removeProject name =>
    if ws.model.isOpen ∧ name ∈ ws.projectNames then [.projectRemoved name] else []
  | .reload name =>
    if ws.model.isOpen then
      (ws.findConfig? name).toList.flatMap fun entry => ws.resetEvents entry.1 entry.2
    else []
  | .refresh =>
    if ws.model.isOpen then
      (ws.modelConfigs.filter fun entry => ws.hasChanged entry.2).flatMap fun entry =>
        ws.resetEvents entry.1 entry.2
    else []
  | _ => []

/-- Nothing is to be told of a call that is refused. -/
theorem Refused.due (refused : ws.Refused call e) : ws.due call = [] := by
  cases refused with
  | closed needs isClosed =>
    cases call with
    | addProject | removeProject | reload | refresh => simp [Workspace.due, isClosed]
    | _ => cases needs
  | projectTaken _ taken => exact if_neg fun free => free.2 taken
  | projectUnknown _ unknown => exact if_neg fun known => unknown known.2
  | unresolved _ nowhere => simp [Workspace.due, nowhere]
  | configTaken | setTaken | locatedSetTaken | notLocated => rfl

/-- An operation that needs an open model succeeds in no other. -/
theorem isOpen_of_manage (needs : call.needsOpen = true) (done : ws.manage call = .ok ws') :
    ws.model.isOpen = true := by
  by_contra isClosed
  have closed : ws.Refused call .closed := .closed needs (Bool.eq_false_iff.2 isClosed)
  cases closed.manage.symm.trans done

/-- Other calls than those by which listeners come and go do to the model what is to be told of
them. -/
theorem happens_of_manage [FiniteSource σ] (managed : Managed ws)
    (other : call.isSubscription = false) (done : ws.manage call = .ok ws') :
    ws.model.Happens (ws.due call) ws'.model := by
  have nothing : ws'.model = ws.model → ws.model.Happens [] ws'.model :=
    fun same => same ▸ .nothing ws.model
  cases call with
  | openModel =>
    cases done
    exact happens_openModel ws
  | closeModel =>
    cases done
    exact happens_closeModel ws
  | addProject p =>
    obtain ⟨isOpen, free, -⟩ := eq_of_addProject done
    rw [due, if_pos ⟨isOpen, free⟩]
    exact happens_addProject done
  | removeProject name =>
    obtain ⟨⟨p, ws''⟩, removed, rfl⟩ := of_map_eq_ok done
    obtain ⟨isOpen, found, -⟩ := eq_of_removeProject removed
    have listed : name ∈ ws.projectNames :=
      List.mem_map_of_mem (f := Prod.fst) (Keyed.mem_of_lookup found)
    rw [due, if_pos ⟨isOpen, listed⟩]
    exact happens_removeProject removed
  | reload name =>
    obtain ⟨p, c, found, rfl⟩ := eq_of_reload done
    rw [due, if_pos (isOpen_of_manage rfl done), found]
    simpa using happens_reloadInModel ws p c
  | refresh =>
    have isOpen := isOpen_of_manage rfl done
    obtain ⟨⟨names, ws''⟩, refreshed, rfl⟩ := of_map_eq_ok done
    have sound := managed.reachable.sound
    have own : ∀ entry ∈ ws.modelConfigs,
        ws.HasConfig entry.2 ∧ (ws.config entry.2).origin.isImported = false := by
      intro entry listed
      obtain ⟨-, name, held⟩ := mem_modelConfigs.1 listed
      exact sound.held entry.1 (name, entry.2) held
    have once := managed.rostered.nodup_modelConfigs managed.reachable.orderly
      managed.reachable.freely.holds
    rw [due, if_pos isOpen, refresh_eq_ok refreshed, model_refreshConfigs sound _ _ own once]
    refine .reset ws.model fun event listed => ?_
    obtain ⟨entry, -, told⟩ := List.mem_flatMap.1 listed
    exact isReset_of_mem_resetEvents told
  | subscribe | unsubscribe => cases other
  | addConfig p name =>
    obtain ⟨⟨id, ws''⟩, added, rfl⟩ := of_map_eq_ok done
    exact nothing (model_insertConfig added)
  | addSet p name =>
    obtain ⟨⟨id, ws''⟩, added, rfl⟩ := of_map_eq_ok done
    exact nothing (model_addSet added)
  | addLocatedSet p locator name =>
    obtain ⟨⟨id, ws''⟩, added, rfl⟩ := of_map_eq_ok done
    exact nothing (model_addLocatedSet added)
  | detect p locator =>
    obtain ⟨_, detected, rfl⟩ := of_map_eq_ok done
    obtain ⟨names, -, rfl⟩ := of_map_eq_ok detected
    exact nothing (model_replaceDetected p locator.name names ws)

/-- Every operation, subscriptions aside, fires the events that are due for it. -/
theorem happens_carryOut [FiniteSource σ] (managed : Managed ws)
    (other : call.isSubscription = false) :
    ws.model.Happens (ws.due call) (ws.carryOut call).model := by
  cases done : ws.manage call with
  | ok ws' =>
    rw [carryOut_of_manage done]
    exact happens_of_manage managed other done
  | error e =>
    have refused := refused_of_manage done
    rw [refused.carryOut, refused.due]
    exact .nothing ws.model

/-- That listeners come and go is told to nobody, and changes nothing else of the model. -/
theorem carryOut_subscription (ws : Workspace σ) (comes : call.isSubscription = true) :
    ws.due call = [] ∧ (ws.carryOut call).model.view = ws.model.view ∧
      (ws.carryOut call).model.deliveries = ws.model.deliveries := by
  cases call with
  | subscribe | unsubscribe => exact ⟨rfl, rfl, rfl⟩
  | _ => cases comes

/-- Listeners stay unless they are removed. -/
theorem mem_listeners_carryOut [FiniteSource σ] (managed : Managed ws)
    (stays : call ≠ .unsubscribe listener) (listening : listener ∈ ws.model.listeners) :
    listener ∈ (ws.carryOut call).model.listeners := by
  cases comes : call.isSubscription with
  | false =>
    rw [(happens_carryOut managed comes).listeners.1]
    exact listening
  | true =>
    cases call with
    | subscribe => exact List.mem_append_left _ listening
    | unsubscribe gone =>
      refine List.mem_filter.2 ⟨listening, decide_eq_true ?_⟩
      rintro rfl
      exact stays rfl
    | _ => cases comes

/-- Who listens is told what is due, once and in order. -/
theorem eventsFor_carryOut [FiniteSource σ] (managed : Managed ws)
    (listening : listener ∈ ws.model.listeners) :
    (ws.carryOut call).model.eventsFor listener
      = ws.model.eventsFor listener ++ ws.due call := by
  cases comes : call.isSubscription with
  | false =>
    exact (happens_carryOut managed comes).eventsFor managed.reachable.orderly.listeners listening
  | true =>
    obtain ⟨due, -, deliveries⟩ := carryOut_subscription ws comes
    rw [due, List.append_nil, Model.eventsFor, deliveries, Model.eventsFor]

/-- What is due shows what a call has made of the model. -/
theorem view_carryOut [FiniteSource σ] (managed : Managed ws) :
    (ws.carryOut call).model.view = ws.model.view.replay (ws.due call) := by
  cases comes : call.isSubscription with
  | false => exact (happens_carryOut managed comes).view_eq
  | true =>
    obtain ⟨due, view, -⟩ := carryOut_subscription ws comes
    rw [due, view]
    rfl

/-- Resets are due only where configs are read again. -/
theorem rereads_of_mem_due {event : ModelEvent} (told : event ∈ ws.due call)
    (reset : event.isReset = true) : call.rereads = true := by
  cases call with
  | reload | refresh => rfl
  | openModel =>
    rw [due, List.mem_ite_nil_left, List.mem_singleton] at told
    cases told.2
    cases reset
  | closeModel | addProject | removeProject =>
    rw [due, List.mem_ite_nil_right, List.mem_singleton] at told
    cases told.2
    cases reset
  | _ => cases told

/-- An event about the model itself is due exactly if the call changes it, and then alone. -/
theorem effective_carryOut [FiniteSource σ] (managed : Managed ws) :
    if (ws.carryOut call).model.view = ws.model.view then
      ∀ event ∈ ws.due call, event.isReset = true ∧ call.rereads = true
    else ∃ event, ws.due call = [event] ∧ event.isReset = false := by
  have resets : (∀ event ∈ ws.due call, event.isReset = true) →
      ∀ event ∈ ws.due call, event.isReset = true ∧ call.rereads = true := by
    intro resets event told
    exact ⟨resets event told, rereads_of_mem_due told (resets event told)⟩
  cases comes : call.isSubscription with
  | false =>
    rcases (happens_carryOut managed comes).effective with ⟨same, only⟩ | ⟨changed, one⟩
    · rw [if_pos same]
      exact resets only
    · rw [if_neg changed]
      exact one
  | true =>
    obtain ⟨due, view, -⟩ := carryOut_subscription ws comes
    rw [if_pos view, due]
    exact fun _ none => nomatch none

/-! ## As long as a listener stays -/

/-- What goes on while a listener stays: calls, but not the one that removes the listener, and
whatever does not concern the model. -/
inductive Course (listener : ListenerId) (ws : Workspace σ) : Workspace σ → Prop
  | start : Course listener ws ws
  | call {ws' : Workspace σ} (before : Course listener ws ws') (call : ManagementCall)
      (stays : call ≠ .unsubscribe listener)
      (made : ∀ p, call = .addProject p → ws'.HasProject p) :
      Course listener ws (ws'.carryOut call)
  | content {ws' ws'' : Workspace σ} (before : Course listener ws ws')
      (step : ContentStep ws' ws'') : Course listener ws ws''
  | management {ws' ws'' : Workspace σ} (before : Course listener ws ws')
      (step : ManagementStep ws' ws'') (aside : ws''.model = ws'.model) : Course listener ws ws''

section Finite

variable [FiniteSource σ]

/-- Every step of a course keeps the workspace managed. -/
theorem Course.managed (course : Course listener ws ws') (managed : Managed ws) :
    Managed ws' := by
  induction course with
  | start => exact managed
  | call before call stays made ih => exact ih.carryOut call made
  | content before step ih => exact ih.content step
  | management before step aside ih => exact step.managed ih fun _ listed => .inl (aside ▸ listed)

/-- A listener knows the model from what it has been told since it saw this of it. -/
def Follows (listener : ListenerId) (view : ModelView) (ws : Workspace σ) : Prop :=
  listener ∈ ws.model.listeners ∧ ws.model.view = view.replay (ws.model.eventsFor listener)

omit [DocumentSource σ] [FiniteSource σ] in
/-- A listener that follows the model still does where the model stays. -/
theorem Follows.congr {view : ModelView} (h : Follows listener view ws)
    (same : ws'.model = ws.model) : Follows listener view ws' := by
  rw [Follows, same]
  exact h

/-- A listener that stays follows the model through every operation. -/
theorem Follows.carryOut {view : ModelView} (h : Follows listener view ws) (managed : Managed ws)
    (stays : call ≠ .unsubscribe listener) : Follows listener view (ws.carryOut call) := by
  refine ⟨mem_listeners_carryOut managed stays h.1, ?_⟩
  rw [view_carryOut managed, eventsFor_carryOut managed h.1, ModelView.replay_append, ← h.2]

/-- Neither content nor questions keep a listener from following. -/
theorem Follows.content {view : ModelView} (h : Follows listener view ws) (managed : Managed ws)
    (step : ContentStep ws ws') : Follows listener view ws' := by
  obtain ⟨events, resets, model⟩ := step.tells managed.reachable.sound
  have happens : ws.model.Happens events ws'.model := model ▸ .reset ws.model resets
  refine ⟨happens.listeners.1 ▸ h.1, ?_⟩
  rw [happens.view_eq, happens.eventsFor managed.reachable.orderly.listeners h.1,
    ModelView.replay_append, ← h.2]

/-- A listener that stays goes on knowing the model. -/
theorem Course.follows {view : ModelView} (course : Course listener ws ws') (managed : Managed ws)
    (h : Follows listener view ws) : Follows listener view ws' := by
  induction course with
  | start => exact h
  | call before call stays made ih => exact ih.carryOut (before.managed managed) stays
  | content before step ih => exact ih.content (before.managed managed) step
  | management before step aside ih => exact ih.congr aside

/-- **Replay.**  A listener that has subscribed and stays knows at every moment whether the model is
open and the projects in it, in order, from what it has been told; and a closed model has none.  By
the next call it is told what is due, and nothing else: of a change to the model one event, and of a
call that is refused nothing. -/
theorem replay_of_course (managed : Managed ws)
    (course : Course ⟨ws.model.subscriptions⟩ (ws.carryOut .subscribe) ws') :
    ws'.model.view = ws.model.view.replay (ws'.model.eventsFor ⟨ws.model.subscriptions⟩) ∧
      (ws'.model.isOpen = false → ws'.model.projects = []) ∧
      ∀ call,
        (ws'.carryOut call).model.eventsFor ⟨ws.model.subscriptions⟩
            = ws'.model.eventsFor ⟨ws.model.subscriptions⟩ ++ ws'.due call ∧
          (∀ e, ws'.Refused call e → ws'.due call = []) ∧
          if (ws'.carryOut call).model.view = ws'.model.view then
            ∀ event ∈ ws'.due call, event.isReset = true ∧ call.rereads = true
          else ∃ event, ws'.due call = [event] ∧ event.isReset = false := by
  have subscribed : Managed (ws.carryOut .subscribe) :=
    managed.carryOut .subscribe fun _ same => nomatch same
  have first : Follows ⟨ws.model.subscriptions⟩ ws.model.view (ws.carryOut .subscribe) := by
    refine ⟨List.mem_append_right _ List.mem_cons_self, ?_⟩
    have silent : (ws.carryOut .subscribe).model.eventsFor ⟨ws.model.subscriptions⟩ = [] :=
      managed.reachable.orderly.eventsFor_subscribe
    rw [silent]
    rfl
  have now : Managed ws' := course.managed subscribed
  obtain ⟨listening, shown⟩ := course.follows subscribed first
  refine ⟨shown, now.reachable.orderly.closed, fun call => ⟨?told, ?refused, ?effective⟩⟩
  case told => exact eventsFor_carryOut now listening
  case refused => exact fun e refused => refused.due
  case effective => exact effective_carryOut now

end Finite

/-! ### A listener and two projects -/

/-- Two projects, and a model that is not open yet. -/
def paired : Workspace DocumentStore :=
  let ws : Workspace DocumentStore := { source := {} }
  ((ws.useProject { name := "demo" }).2.useProject { name := "other" }).2

theorem managed_paired : Managed paired := by
  have empty : Managed ({ source := {} } : Workspace DocumentStore) := .start _
  have first := (ManagementStep.useProject _ "demo" .markup {} {}).managed empty fun _ => .inl
  exact (ManagementStep.useProject _ "other" .markup {} {}).managed first fun _ => .inl

/-- The model is opened, one project is added twice and the other once, and the first is removed. -/
def bustling : Workspace DocumentStore :=
  let ws := (paired.carryOut .subscribe).carryOut .openModel
  let ws := ((ws.carryOut (.addProject ⟨0⟩)).carryOut (.addProject ⟨0⟩)).carryOut (.addProject ⟨1⟩)
  ws.carryOut (.removeProject "demo")

theorem course_bustling : Course ⟨0⟩ (paired.carryOut .subscribe) bustling := by
  have subscribed : Course ⟨0⟩ (paired.carryOut .subscribe) (paired.carryOut .subscribe) := .start
  have opened := subscribed.call .openModel nofun fun _ same => nomatch same
  have first := opened.call (.addProject ⟨0⟩) nofun fun p same => by
    cases same
    decide
  have again := first.call (.addProject ⟨0⟩) nofun fun p same => by
    cases same
    decide +kernel
  have second := again.call (.addProject ⟨1⟩) nofun fun p same => by
    cases same
    decide +kernel
  exact second.call (.removeProject "demo") nofun fun _ same => nomatch same

/-- The listener is told of four changes, not of the project that was there already, and of one more
when the model is closed. -/
theorem replay_bustling :
    bustling.model.eventsFor ⟨0⟩
        = [.opened, .projectAdded "demo", .projectAdded "other", .projectRemoved "demo"] ∧
      bustling.model.view = { isOpen := true, projects := ["other"] } ∧
      (bustling.carryOut .closeModel).model.eventsFor ⟨0⟩
        = [.opened, .projectAdded "demo", .projectAdded "other", .projectRemoved "demo",
            .closed] := by
  obtain ⟨view, -, next⟩ := replay_of_course managed_paired course_bustling
  have told : bustling.model.eventsFor ⟨0⟩
      = [.opened, .projectAdded "demo", .projectAdded "other", .projectRemoved "demo"] := by
    decide +kernel
  have isOpen : bustling.model.isOpen = true := by decide +kernel
  have due : bustling.due .closeModel = [.closed] := by rw [due, if_pos isOpen]
  have first : (⟨paired.model.subscriptions⟩ : ListenerId) = ⟨0⟩ := by decide +kernel
  rw [first] at view next
  refine ⟨told, ?_, ?_⟩
  · rw [view, told]
    decide +kernel
  · rw [(next .closeModel).1, told, due]
    rfl

end Workspace

end BeanWiring
