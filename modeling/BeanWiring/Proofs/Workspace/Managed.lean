/-
# Managed workspaces

An id can be made up, and a project that was never made could be added to the model under such an
id.  A workspace is managed where that does not happen: only projects that were made get into the
model.

Main statements:

* `Managed` : the workspaces that come about in this way;
* `Managed.rostered` : the lists of every such workspace;
* `Managed.carryOut` : a workspace stays managed under calls that add only projects that were made.
-/
import BeanWiring.Proofs.Workspace.Refusals
import BeanWiring.Proofs.Workspace.Rosters

namespace BeanWiring.Workspace

variable {σ : Type} {ws ws' : Workspace σ} {p : ProjectId}

/-! ## Steps of management -/

theorem rostered_start (source : σ) : ({ source } : Workspace σ).Rostered where
  inModel := fun _ none => nomatch none
  sets := fun _ _ none => nomatch none
  once := fun _ => ⟨List.nodup_nil, List.nodup_nil⟩

/-- The lists are as they should be after each step, if the model is only given what was made. -/
theorem ManagementStep.rostered (step : ManagementStep ws ws') (h : ws.Rostered)
    (made : ∀ entry ∈ ws'.model.projects, ws'.HasProject entry.2) : ws'.Rostered := by
  have of_model : ws'.model = ws.model → Retains ws ws' → ws'.Rostered := fun model retains =>
    h.of_retains retains fun entry listed => .inl (model ▸ listed)
  cases step with
  | useProject => exact of_model rfl (retains_useProject ws rfl rfl)
  | dropProject => exact of_model rfl (.of_same rfl rfl)
  | addConfig done => exact h.insertConfig done
  | addConfigs p names => exact addConfigs_preserves (fun added h => h.insertConfig added) names h
  | removeConfig p name =>
    by_cases there : ws.hasConfig p name = true
    · have released := releases_removeConfig there
      exact of_model released.model released.retains
    · rwa [Workspace.removeConfig, if_neg there]
  | replaceDetected p locator names =>
    have released := releases_removeConfigs ws p
      ((ws.detectedBy p locator).filter fun name => !names.contains name)
    refine addDetected_preserves (fun added h => h.insertConfig added) names ?_
    exact h.of_retains released.retains fun entry listed => .inl (released.model ▸ listed)
  | removeDetected p locator =>
    exact of_model (model_removeDetected p locator ws) (retains_removeDetected p locator ws)
  | addSet done => exact h.addSet done
  | addLocatedSet done => exact h.addLocatedSet done
  | removeSet p name => exact of_model rfl (retains_removeSet p name ws)
  | openModel =>
    exact h.of_retains (.of_same rfl rfl) fun _ listed => .inl (projects_opened ws.model ▸ listed)
  | closeModel =>
    refine h.of_retains (.of_same rfl rfl) fun entry listed => .inl ?_
    exact projects_closed ws.model entry listed
  | addProject done => exact h.addProject done (made_of_addProject done made)
  | removeProject done =>
    refine h.of_retains (retains_removeProject done) fun entry listed => .inl ?_
    exact projects_removeProject done entry listed
  | subscribe => exact h.of_retains (.of_same rfl rfl) fun _ listed => .inl listed
  | unsubscribe => exact h.of_retains (.of_same rfl rfl) fun _ listed => .inl listed

/-! ## Managed workspaces -/

variable [DocumentSource σ]

/-- A workspace that comes about when only projects that were made get into the model. -/
inductive Managed : Workspace σ → Prop
  | start (source : σ) : Managed { source }
  | content {ws ws' : Workspace σ} (before : Managed ws) (step : ContentStep ws ws') : Managed ws'
  | management {ws ws' : Workspace σ} (before : Managed ws) (step : ManagementStep ws ws')
      (made : ∀ entry ∈ ws'.model.projects, ws'.HasProject entry.2) : Managed ws'

theorem Managed.reachable (h : Managed ws) : Reachable ws := by
  induction h with
  | start source => exact .start source
  | content _ step ih => exact ih.content step
  | management _ step _ ih => exact ih.management step

section Finite

variable [FiniteSource σ]

/-- All lists of a managed workspace are as they should be. -/
theorem Managed.rostered (h : Managed ws) : ws.Rostered := by
  induction h with
  | start source => exact rostered_start source
  | content before step ih =>
    have sound := before.reachable.sound
    obtain ⟨events, -, model⟩ := step.tells sound
    rw [Model.tell_eq] at model
    exact ih.of_retains (step.retains sound) fun entry listed => .inl (by rwa [model] at listed)
  | management _ step made ih => exact step.rostered ih made

/-- A step that gives the model at most projects that were made. -/
theorem ManagementStep.managed (step : ManagementStep ws ws') (h : Managed ws)
    (new : ∀ entry ∈ ws'.model.projects, entry ∈ ws.model.projects ∨ ws.HasProject entry.2) :
    Managed ws' := by
  refine h.management step fun entry listed => ?_
  have made : ws.HasProject entry.2 := by
    rcases new entry listed with old | made
    · exact (h.rostered.inModel entry old).1
    · exact made
  exact (step.keepsNames.projects _ made).1

/-! ## Calls -/

/-- What a call comes to is managed, if a project that it adds was made. -/
theorem Managed.of_manage (h : Managed ws) {call : ManagementCall}
    (made : ∀ p, call = .addProject p → ws.HasProject p) (done : ws.manage call = .ok ws') :
    Managed ws' := by
  have same : ws'.model = ws.model →
      ∀ entry ∈ ws'.model.projects, entry ∈ ws.model.projects ∨ ws.HasProject entry.2 :=
    fun same _ listed => .inl (same ▸ listed)
  cases call with
  | openModel =>
    cases done
    exact (ManagementStep.openModel ws).managed h fun _ listed =>
      .inl (projects_opened ws.model ▸ listed)
  | closeModel =>
    cases done
    exact (ManagementStep.closeModel ws).managed h fun entry listed =>
      .inl (projects_closed ws.model entry listed)
  | addProject p =>
    refine (ManagementStep.addProject done).managed h fun entry listed => ?_
    rw [projects_addProject done] at listed
    rcases List.mem_append.1 listed with old | new
    · exact .inl old
    · cases List.mem_singleton.1 new
      exact .inr (made p rfl)
  | removeProject name =>
    obtain ⟨⟨p, ws''⟩, removed, rfl⟩ := of_map_eq_ok done
    exact (ManagementStep.removeProject removed).managed h fun entry listed =>
      .inl (projects_removeProject removed entry listed)
  | reload name => exact h.content (.reload name done)
  | refresh =>
    obtain ⟨⟨names, ws''⟩, refreshed, rfl⟩ := of_map_eq_ok done
    exact h.content (.refresh names refreshed)
  | subscribe =>
    cases done
    exact (ManagementStep.subscribe ws).managed h fun _ => .inl
  | unsubscribe listener =>
    cases done
    exact (ManagementStep.unsubscribe ws listener).managed h fun _ => .inl
  | addConfig p name =>
    obtain ⟨⟨id, ws''⟩, added, rfl⟩ := of_map_eq_ok done
    exact (ManagementStep.addConfig added).managed h (same (model_insertConfig added))
  | addSet p name =>
    obtain ⟨⟨id, ws''⟩, added, rfl⟩ := of_map_eq_ok done
    exact (ManagementStep.addSet added).managed h (same (model_addSet added))
  | addLocatedSet p locator name =>
    obtain ⟨⟨id, ws''⟩, added, rfl⟩ := of_map_eq_ok done
    exact (ManagementStep.addLocatedSet added).managed h (same (model_addLocatedSet added))
  | detect p locator =>
    obtain ⟨_, detected, rfl⟩ := of_map_eq_ok done
    obtain ⟨names, -, rfl⟩ := of_map_eq_ok detected
    exact (ManagementStep.replaceDetected ws p locator.name names).managed h
      (same (model_replaceDetected p locator.name names ws))

/-- A workspace stays managed under calls, if a project that they add was made. -/
theorem Managed.carryOut (h : Managed ws) (call : ManagementCall)
    (made : ∀ p, call = .addProject p → ws.HasProject p) : Managed (ws.carryOut call) := by
  cases done : ws.manage call with
  | ok ws' =>
    rw [carryOut_of_manage done]
    exact h.of_manage made done
  | error e =>
    rw [(refused_of_manage done).carryOut]
    exact h

end Finite

end BeanWiring.Workspace
