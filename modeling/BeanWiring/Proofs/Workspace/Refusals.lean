/-
# Refusals

What is managed in a workspace is asked for by calls, and some calls are refused: because the model
is closed, because a name is taken or unknown, or because a locator fails.  An operation may have
taken steps before it finds out, but a call that is refused has changed nothing.

Main statements:

* `Refused` : which calls are refused, and with which error;
* `runOn_attempt` : where a call leads;
* `error_iff_refused` : a call gives an error exactly if it is refused, and leaves everything then.
-/
import BeanWiring.Proofs.Workspace.Holdings
import BeanWiring.Workspace.Attempt

namespace BeanWiring

/-- What can be asked of the model, and of the projects in it. -/
inductive ManagementCall where
  | openModel
  | closeModel
  | addProject (project : ProjectId)
  | removeProject (name : String)
  | reload (name : String)
  | refresh
  | subscribe
  | unsubscribe (listener : ListenerId)
  | addConfig (project : ProjectId) (name : String)
  | addSet (project : ProjectId) (name : String)
  | addLocatedSet (project : ProjectId) (locator name : String)
  | detect (project : ProjectId) (locator : ConfigLocator)

namespace ManagementCall

/-- Whether only an open model answers the call. -/
def needsOpen : ManagementCall → Bool
  | addProject _ | removeProject _ | reload _ | refresh => true
  | _ => false

variable {σ : Type} [DocumentSource σ]

/-- What is attempted for a call. -/
def attempt : ManagementCall → Workspace.Attempt σ Unit
  | openModel => modify Workspace.openModel
  | closeModel => modify Workspace.closeModel
  | addProject project => .addProject project
  | removeProject name => (fun _ => ()) <$> .removeProject name
  | reload name => .reload name
  | refresh => (fun _ => ()) <$> .refresh
  | subscribe => modify fun ws => { ws with model := ws.model.subscribe.2 }
  | unsubscribe listener => modify fun ws =>
    { ws with model := (ws.model.unsubscribe listener).2 }
  | addConfig project name => (fun _ => ()) <$> .addConfig project name
  | addSet project name => (fun _ => ()) <$> .addSet project name
  | addLocatedSet project locator name => (fun _ => ()) <$> .addLocatedSet project locator name
  | detect project locator => (fun _ => ()) <$> .detect project locator

end ManagementCall

namespace Workspace

variable {σ α β : Type} {ws ws' : Workspace σ} {call : ManagementCall} {e : ModelError}

/-! ## What calls come to -/

/-- The names of the projects in the model. -/
def projectNames (ws : Workspace σ) : List String := ws.model.projects.map Prod.fst

/-- Which calls are refused, and with which error. -/
inductive Refused (ws : Workspace σ) : ManagementCall → ModelError → Prop
  | closed {call : ManagementCall} (needs : call.needsOpen = true)
      (isClosed : ws.model.isOpen = false) : Refused ws call .closed
  | projectTaken {p : ProjectId} (isOpen : ws.model.isOpen = true)
      (taken : (ws.project p).name ∈ ws.projectNames) :
      Refused ws (.addProject p) (.duplicate .project (ws.project p).name)
  | projectUnknown {name : String} (isOpen : ws.model.isOpen = true)
      (unknown : name ∉ ws.projectNames) : Refused ws (.removeProject name) (.unknownProject name)
  | unresolved {name : String} (isOpen : ws.model.isOpen = true)
      (nowhere : ws.findConfig? name = none) :
      Refused ws (.reload name) (.unresolvedExternalName name)
  | configTaken {p : ProjectId} {name : String}
      (taken : name ∈ (ws.project p).configs.map Prod.fst) :
      Refused ws (.addConfig p name) (.duplicate .config name)
  | setTaken {p : ProjectId} {name : String} (taken : name ∈ (ws.project p).sets.map Prod.fst) :
      Refused ws (.addSet p name) (.duplicate .configSet name)
  | locatedSetTaken {p : ProjectId} {locator name : String}
      (taken : name ∈ (ws.project p).sets.map Prod.fst) :
      Refused ws (.addLocatedSet p locator name) (.duplicate .configSet name)
  | notLocated {p : ProjectId} {locator : ConfigLocator} {e : ModelError}
      (failed : locator.locate (ws.project p).settings = .error e) :
      Refused ws (.detect p locator) e

section Calls

variable [DocumentSource σ]

/-- What a call comes to as a whole. -/
def manage (ws : Workspace σ) : ManagementCall → Except ModelError (Workspace σ)
  | .openModel => .ok ws.openModel
  | .closeModel => .ok ws.closeModel
  | .addProject project => ws.addProject project
  | .removeProject name => (ws.removeProject name).map Prod.snd
  | .reload name => ws.reload name
  | .refresh => ws.refresh.map Prod.snd
  | .subscribe => .ok { ws with model := ws.model.subscribe.2 }
  | .unsubscribe listener => .ok { ws with model := (ws.model.unsubscribe listener).2 }
  | .addConfig project name => (ws.addConfig project name).map Prod.snd
  | .addSet project name => (ws.addSet project name).map Prod.snd
  | .addLocatedSet project locator name => (ws.addLocatedSet project locator name).map Prod.snd
  | .detect project locator =>
    ((locator.locate (ws.project project).settings).map
      (ws.replaceDetected project locator.name)).map Prod.snd

omit [DocumentSource σ] in
/-- An attempt of which only the workspace counts. -/
theorem runOn_ignoring {attempt : Attempt σ α} {result : Except ModelError (α × Workspace σ)}
    (leads : attempt.runOn ws = ws.leadsTo result) :
    ((fun _ => ()) <$> attempt).runOn ws = ws.leadsTo ((result.map Prod.snd).map ((), ·)) := by
  rw [Attempt.runOn_map, leads]
  cases result with
  | ok _ => rfl
  | error _ => rfl

/-- An attempt leads where its call comes to, and leaves the workspace as it was if that is an
error. -/
theorem runOn_attempt (ws : Workspace σ) (call : ManagementCall) :
    call.attempt.runOn ws = ws.leadsTo ((ws.manage call).map ((), ·)) := by
  cases call with
  | openModel | closeModel | subscribe | unsubscribe => rfl
  | addProject project => exact Attempt.runOn_addProject ws project
  | removeProject name => exact runOn_ignoring (Attempt.runOn_removeProject ws name)
  | reload name => exact Attempt.runOn_reload ws name
  | refresh => exact runOn_ignoring (Attempt.runOn_refresh ws)
  | addConfig project name => exact runOn_ignoring (Attempt.runOn_addConfig ws project name)
  | addSet project name => exact runOn_ignoring (Attempt.runOn_addSet ws project name)
  | addLocatedSet project locator name =>
    exact runOn_ignoring (Attempt.runOn_addLocatedSet ws project locator name)
  | detect project locator => exact runOn_ignoring (Attempt.runOn_detect ws project locator)

/-! ## When calls are refused -/

omit [DocumentSource σ] in
theorem setOf?_isSome_iff {p : ProjectId} {name : String} :
    (ws.setOf? p name).isSome = true ↔ name ∈ (ws.project p).sets.map Prod.fst :=
  Keyed.lookup_isSome_iff_mem

/-- What is refused comes to the error. -/
theorem Refused.manage (refused : ws.Refused call e) : ws.manage call = .error e := by
  cases refused with
  | closed needs isClosed =>
    cases call with
    | addProject | removeProject | reload | refresh =>
      simp [Workspace.manage, Workspace.addProject, Workspace.removeProject, Workspace.reload,
        Workspace.refresh, isClosed, Except.map]
    | _ => cases needs
  | projectTaken isOpen taken =>
    simp [Workspace.manage, Workspace.addProject, isOpen, Keyed.has_iff_mem.2 taken]
  | @projectUnknown name isOpen unknown =>
    have nowhere : ws.model.projects.lookup name = none :=
      Option.not_isSome_iff_eq_none.1 (mt Keyed.lookup_isSome_iff_mem.1 unknown)
    simp [Workspace.manage, Workspace.removeProject, isOpen, nowhere, Except.map]
  | unresolved isOpen nowhere => simp [Workspace.manage, Workspace.reload, isOpen, nowhere]
  | configTaken taken =>
    simp [Workspace.manage, Workspace.addConfig, Workspace.insertConfig, hasConfig_iff.2 taken,
      Except.map]
  | setTaken taken =>
    simp [Workspace.manage, Workspace.addSet, setOf?_isSome_iff.2 taken, Except.map]
  | locatedSetTaken taken =>
    rw [Workspace.manage, Workspace.addLocatedSet, Workspace.addSet,
      if_pos (setOf?_isSome_iff.2 taken)]
    rfl
  | notLocated failed => simp [Workspace.manage, failed, Except.map]

omit [DocumentSource σ] in
theorem of_map_eq_error {f : α → β} {result : Except ModelError α}
    (error : result.map f = .error e) : result = .error e := by
  cases result with
  | ok _ => cases error
  | error _ =>
    cases error
    rfl

omit [DocumentSource σ] in
theorem of_map_eq_ok {f : α → β} {result : Except ModelError α} {b : β}
    (done : result.map f = .ok b) : ∃ a, result = .ok a ∧ f a = b := by
  cases result with
  | ok a => exact ⟨a, rfl, Except.ok.inj done⟩
  | error _ => cases done

/-- What comes to an error is refused. -/
theorem refused_of_manage (error : ws.manage call = .error e) : ws.Refused call e := by
  by_cases isClosed : call.needsOpen = true ∧ ws.model.isOpen = false
  · have closed : ws.Refused call .closed := .closed isClosed.1 isClosed.2
    rw [closed.manage] at error
    cases error
    exact closed
  have isOpen : call.needsOpen = true → ws.model.isOpen = true := by simpa using isClosed
  cases call with
  | openModel | closeModel | subscribe | unsubscribe => cases error
  | addProject p =>
    have isOpen := isOpen rfl
    simp only [manage, addProject, isOpen, Bool.not_true, Bool.false_eq_true, if_false] at error
    split at error
    · rename_i taken
      cases error
      exact .projectTaken isOpen (Keyed.has_iff_mem.1 taken)
    · cases error
  | removeProject name =>
    have isOpen := isOpen rfl
    have error := of_map_eq_error error
    simp only [removeProject, isOpen, Bool.not_true, Bool.false_eq_true, if_false] at error
    split at error
    · rename_i nowhere
      cases error
      refine .projectUnknown isOpen fun listed => ?_
      rw [projectNames, ← Keyed.lookup_isSome_iff_mem, nowhere] at listed
      cases listed
    · cases error
  | reload name =>
    have isOpen := isOpen rfl
    simp only [manage, reload, isOpen, Bool.not_true, Bool.false_eq_true, if_false] at error
    split at error
    · cases error
    · rename_i nowhere
      cases error
      exact .unresolved isOpen nowhere
  | refresh =>
    have error := of_map_eq_error error
    rw [refresh, isOpen rfl] at error
    cases error
  | addConfig p name =>
    have error := of_map_eq_error error
    unfold addConfig insertConfig at error
    split at error
    · rename_i taken
      cases error
      exact .configTaken (hasConfig_iff.1 taken)
    · cases error
  | addSet p name =>
    have error := of_map_eq_error error
    unfold addSet at error
    split at error
    · rename_i taken
      cases error
      exact .setTaken (setOf?_isSome_iff.1 taken)
    · cases error
  | addLocatedSet p locator name =>
    have error := of_map_eq_error error
    unfold addLocatedSet addSet at error
    split at error
    · rename_i taken
      cases error
      exact .locatedSetTaken (setOf?_isSome_iff.1 taken)
    · cases error
  | detect p locator => exact .notLocated (of_map_eq_error (of_map_eq_error error))

/-! ## What calls leave -/

/-- The workspace that a call leaves. -/
def carryOut (ws : Workspace σ) (call : ManagementCall) : Workspace σ :=
  (call.attempt.runOn ws).2

theorem carryOut_of_manage (done : ws.manage call = .ok ws') : ws.carryOut call = ws' := by
  rw [carryOut, runOn_attempt, done]
  rfl

theorem Refused.carryOut (refused : ws.Refused call e) : ws.carryOut call = ws := by
  rw [Workspace.carryOut, runOn_attempt, refused.manage]
  rfl

/-- **Refusals.**  A call gives an error exactly if it is refused with that error, and then it
leaves the whole workspace as it was: the model with its projects and what its listeners were told,
and every project, config and config set. -/
theorem error_iff_refused :
    call.attempt.runOn ws = (.error e, ws') ↔ ws.Refused call e ∧ ws' = ws := by
  rw [runOn_attempt]
  constructor
  · intro run
    cases result : ws.manage call with
    | ok done =>
      rw [result] at run
      cases run
    | error e' =>
      rw [result] at run
      cases run
      exact ⟨refused_of_manage result, rfl⟩
  · rintro ⟨refused, rfl⟩
    rw [refused.manage]
    rfl

end Calls

end Workspace

end BeanWiring
