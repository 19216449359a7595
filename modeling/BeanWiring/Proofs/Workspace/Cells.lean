/-
# Cells after a change

What a workspace knows of its configs and config sets after one of them was changed or
added, whatever the ids are: a change to an id that was never given away does nothing.

Main statements: `config_updateConfig_cases`, `set_updateSet_cases` and `config_append`.
-/
import BeanWiring.Workspace.Basic

namespace BeanWiring.Workspace

variable {σ : Type}

/-! ## Ids that were given away -/

/-- A config was made under the id. -/
def HasConfig (ws : Workspace σ) (id : ConfigId) : Prop := id.index < ws.configs.size

/-- A config set was made under the id. -/
def HasSet (ws : Workspace σ) (id : SetId) : Prop := id.index < ws.sets.size

instance (ws : Workspace σ) (id : ConfigId) : Decidable (ws.HasConfig id) :=
  Nat.decLt _ _

instance (ws : Workspace σ) (id : SetId) : Decidable (ws.HasSet id) :=
  Nat.decLt _ _

/-- Configs that were made are there as long as there are no fewer. -/
theorem HasConfig.of_size_le {ws ws' : Workspace σ} {id : ConfigId} (known : ws.HasConfig id)
    (le : ws.configs.size ≤ ws'.configs.size) : ws'.HasConfig id :=
  Nat.lt_of_lt_of_le known le

/-- Nothing is known under other ids. -/
theorem config_of_not_hasConfig {ws : Workspace σ} {id : ConfigId} (h : ¬ ws.HasConfig id) :
    ws.config id = {} := by
  have outside : ws.configs.size ≤ id.index := by
    unfold HasConfig at h
    omega
  rw [config, Array.getElem?_eq_none outside]
  rfl

/-- What has been read was made before. -/
theorem hasConfig_of_contents {ws : Workspace σ} {id : ConfigId} {c : Contents ConfigId}
    (read : (ws.config id).contents = some c) : ws.HasConfig id := by
  by_cases h : ws.HasConfig id
  · exact h
  · rw [config_of_not_hasConfig h] at read
    cases read

/-- What has been merged was made before. -/
theorem hasSet_of_merged {ws : Workspace σ} {id : SetId} {m : MergedSet ConfigId}
    (merged : (ws.set id).merged = some m) : ws.HasSet id := by
  by_cases h : ws.HasSet id
  · exact h
  · have outside : ws.sets.size ≤ id.index := by
      unfold HasSet at h
      omega
    rw [set, Array.getElem?_eq_none outside] at merged
    cases merged

/-! ## Changes -/

/-- An edit of a config changes no other config. -/
theorem config_updateConfig_cases (ws : Workspace σ) (id other : ConfigId)
    (f : ConfigCell → ConfigCell) :
    (ws.updateConfig id f).config other = ws.config other ∨
      other = id ∧ (ws.updateConfig id f).config other = f (ws.config id) := by
  by_cases known : id.index < ws.configs.size
  · rw [config_updateConfig ws id other f known]
    by_cases same : other = id
    · exact .inr ⟨same, if_pos same⟩
    · exact .inl (if_neg same)
  · left
    rw [config, updateConfig, Array.getElem?_modify, config]
    by_cases same : id.index = other.index
    · have outside : ws.configs.size ≤ other.index := by omega
      rw [if_pos same, Array.getElem?_eq_none outside]
      rfl
    · rw [if_neg same]

/-- An edit of a set changes no other set. -/
theorem set_updateSet_cases (ws : Workspace σ) (id other : SetId) (f : SetCell → SetCell) :
    (ws.updateSet id f).set other = ws.set other ∨
      other = id ∧ (ws.updateSet id f).set other = f (ws.set id) := by
  by_cases known : id.index < ws.sets.size
  · rw [set_updateSet ws id other f known]
    by_cases same : other = id
    · exact .inr ⟨same, if_pos same⟩
    · exact .inl (if_neg same)
  · left
    rw [set, updateSet, Array.getElem?_modify, set]
    by_cases same : id.index = other.index
    · have outside : ws.sets.size ≤ other.index := by omega
      rw [if_pos same, Array.getElem?_eq_none outside]
      rfl
    · rw [if_neg same]

/-- An edit of a project changes no other project. -/
theorem project_updateProject_cases (ws : Workspace σ) (id other : ProjectId)
    (f : ProjectCell → ProjectCell) :
    (ws.updateProject id f).project other = ws.project other ∨
      other = id ∧ (ws.updateProject id f).project other = f (ws.project id) := by
  rw [project, updateProject, Array.getElem?_modify, project]
  by_cases same : id.index = other.index
  · have same' : id = other := by
      cases id
      cases other
      exact congrArg ProjectId.mk same
    subst same'
    rw [if_pos rfl, project]
    cases ws.projects[id.index]? with
    | none => exact .inl rfl
    | some cell => exact .inr ⟨rfl, rfl⟩
  · rw [if_neg same]
    exact .inl rfl

theorem size_updateConfig (ws : Workspace σ) (id : ConfigId) (f : ConfigCell → ConfigCell) :
    (ws.updateConfig id f).configs.size = ws.configs.size :=
  Array.size_modify

/-! ## Additions -/

/-- Configs that are added get the ids that come next. -/
theorem config_append (ws : Workspace σ) (cells : List ConfigCell) (id : ConfigId) :
    ({ ws with configs := ws.configs ++ cells } : Workspace σ).config id
      = if id.index < ws.configs.size then ws.config id
        else (cells[id.index - ws.configs.size]?).getD {} := by
  have appended : (ws.configs ++ cells)[id.index]?
      = if id.index < ws.configs.size then ws.configs[id.index]?
        else cells[id.index - ws.configs.size]? := by
    rw [← Array.getElem?_toList, Array.toList_appendList, List.getElem?_append]
    simp
  show ((ws.configs ++ cells)[id.index]?).getD {} = _
  rw [appended]
  by_cases known : id.index < ws.configs.size
  · rw [if_pos known, if_pos known]
    rfl
  · rw [if_neg known, if_neg known]

theorem size_append (ws : Workspace σ) (cells : List ConfigCell) :
    (ws.configs ++ cells).size = ws.configs.size + cells.length := by
  rw [← Array.length_toList, Array.toList_appendList, List.length_append, Array.length_toList]

/-- A new config has the next id, and the others stay. -/
theorem config_newConfig (ws : Workspace σ) (cell : ConfigCell) (id : ConfigId) :
    (ws.newConfig cell).2.config id
      = if id.index = ws.configs.size then cell else ws.config id := by
  show ((ws.configs.push cell)[id.index]?).getD {} = _
  rw [Array.getElem?_push]
  by_cases new : id.index = ws.configs.size
  · rw [if_pos new, if_pos new]
    rfl
  · rw [if_neg new, if_neg new]
    rfl

/-- A new set has the next id, and the others stay. -/
theorem set_newSet (ws : Workspace σ) (cell : SetCell) (id : SetId) :
    (ws.newSet cell).2.set id = if id.index = ws.sets.size then cell else ws.set id := by
  show ((ws.sets.push cell)[id.index]?).getD {} = _
  rw [Array.getElem?_push]
  by_cases new : id.index = ws.sets.size
  · rw [if_pos new, if_pos new]
    rfl
  · rw [if_neg new, if_neg new]
    rfl

theorem project_push (ws : Workspace σ) (cell : ProjectCell) (id : ProjectId) :
    ({ ws with projects := ws.projects.push cell } : Workspace σ).project id
      = if id.index = ws.projects.size then cell else ws.project id := by
  show ((ws.projects.push cell)[id.index]?).getD {} = _
  rw [Array.getElem?_push]
  by_cases new : id.index = ws.projects.size
  · rw [if_pos new, if_pos new]
    rfl
  · rw [if_neg new, if_neg new]
    rfl

end BeanWiring.Workspace
