/-
# Trees that have been read

A config is *shown* by a workspace if it has been read with all its imports, at any depth.
What is shown does not depend on the documents any more: reading it again gives the same
tree and changes nothing.

Main statements:

* `readWithin_of_shows` : reading what is shown gives the tree and leaves the workspace alone;
* `Shows.of_agree` : a tree stays shown as long as its own configs stay as they are.
-/
import Mathlib.Data.List.Forall2
import BeanWiring.Workspace.Read

namespace BeanWiring

theorem Contents.mem_importedConfigs {C : Type} {c : Contents C} {t : C} :
    t ∈ c.importedConfigs ↔ some t ∈ c.imports.map Import.target := by
  simp [Contents.importedConfigs, List.mem_filterMap, List.mem_map]

namespace Workspace

variable {σ : Type}

/-! ## Shown trees -/

/-- A config has been read with all its imports, and they form a tree of at most so many
levels. -/
def Shows (ws : Workspace σ) : (depth : Nat) → ConfigId → ConfigTree → Prop
  | 0, _, _ => False
  | depth + 1, id, t => ∃ contents targets, (ws.config id).contents = some contents ∧
      List.Forall₂ (Option.Rel (ws.Shows depth)) (contents.imports.map Import.target) targets ∧
      t = ⟨(ws.config id).name, contents.withTargets targets⟩

variable {ws ws' : Workspace σ}

theorem rel_imp {A B : Type} {R S : A → B → Prop} (h : ∀ a b, R a b → S a b)
    {a : Option A} {b : Option B} (rel : Option.Rel R a b) : Option.Rel S a b := by
  cases rel with
  | none => exact .none
  | some rel => exact .some (h _ _ rel)

/-- A tree stays shown if `P` holds of its root and passes on to imports, and configs that
have `P` stay as they are. -/
theorem Shows.of_agree {P : ConfigId → Prop}
    (agree : ∀ id c, P id → (ws.config id).contents = some c →
      (ws'.config id).contents = some c ∧ (ws'.config id).name = (ws.config id).name)
    (closed : ∀ id c, P id → (ws.config id).contents = some c → ∀ t ∈ c.importedConfigs, P t)
    {depth : Nat} {id : ConfigId} {t : ConfigTree} (root : P id) (h : ws.Shows depth id t) :
    ws'.Shows depth id t := by
  induction depth generalizing id t with
  | zero => exact h.elim
  | succ depth ih =>
    obtain ⟨contents, targets, read, below, rfl⟩ := h
    obtain ⟨read', name⟩ := agree id contents root read
    refine ⟨contents, targets, read', ?_, by rw [name]⟩
    have inside : ∀ a ∈ contents.imports.map Import.target, ∀ j, a = some j → P j := by
      rintro a ha j rfl
      exact closed id contents root read j (Contents.mem_importedConfigs.2 ha)
    refine ((List.forall₂_and_left _ _).2 ⟨inside, below⟩).imp ?_
    rintro a b ⟨ha, rel⟩
    cases rel with
    | none => exact .none
    | some rel => exact .some (ih (ha _ rfl) rel)

theorem Shows.mono {depth depth' : Nat} {id : ConfigId} {t : ConfigTree}
    (h : ws.Shows depth id t) (le : depth ≤ depth') : ws.Shows depth' id t := by
  induction depth generalizing depth' id t with
  | zero => exact h.elim
  | succ depth ih =>
    obtain ⟨depth', rfl⟩ : ∃ k, depth' = k + 1 := ⟨depth' - 1, by omega⟩
    obtain ⟨contents, targets, read, below, rfl⟩ := h
    refine ⟨contents, targets, read, below.imp fun a b => rel_imp fun j t shown => ?_, rfl⟩
    exact ih shown (by omega)

/-! ## Reading what is shown -/

theorem run_mapM_cons {A B : Type} (f : A → StateM (Workspace σ) B) (x : A) (xs : List A)
    (ws : Workspace σ) :
    ((x :: xs).mapM f).run ws
      = (((f x).run ws).1 :: ((xs.mapM f).run ((f x).run ws).2).1,
        ((xs.mapM f).run ((f x).run ws).2).2) := by
  rw [List.mapM_cons]
  rfl

/-- Actions that leave the workspace alone do so one after the other. -/
theorem mapM_of_forall₂ {A B : Type} {f : A → StateM (Workspace σ) B} {xs : List A}
    {ys : List B} (h : List.Forall₂ (fun x y => (f x).run ws = (y, ws)) xs ys) :
    (xs.mapM f).run ws = (ys, ws) := by
  induction h with
  | nil => rfl
  | cons first _ ih => rw [run_mapM_cons, first, ih]

section Read

variable [DocumentSource σ]

/-- Reads what imports lead to, down to a depth. -/
def readTargets (depth : Nat) (targets : List (Option ConfigId)) :
    StateM (Workspace σ) (List (Option ConfigTree)) :=
  targets.mapM fun target => target.mapM (readWithin depth)

/-- A config is read, and then what its imports lead to. -/
theorem run_readWithin_succ (ws : Workspace σ) (depth : Nat) (id : ConfigId) :
    (readWithin (depth + 1) id).run ws
      = let first := (readConfig id).run ws
        let below := (readTargets depth (first.1.imports.map Import.target)).run first.2
        (⟨(ws.config id).name, first.1.withTargets below.1⟩, below.2) :=
  rfl

/-- A tree is read down to the depth that is enough now. -/
theorem run_readTree (ws : Workspace σ) (id : ConfigId) :
    (readTree id).run ws = (readWithin (ws.depthBound id) id).run ws := by
  rw [readTree, StateT.run_bind, StateT.run_get, pure_bind]

theorem readConfig_of_read {id : ConfigId} {c : Contents ConfigId}
    (read : (ws.config id).contents = some c) : (readConfig id).run ws = (c, ws) := by
  simp only [StateT.run, readConfig, read]

/-- Reading what is shown gives the tree, and leaves the workspace alone. -/
theorem readWithin_of_shows {depth depth' : Nat} {id : ConfigId} {t : ConfigTree}
    (h : ws.Shows depth id t) (le : depth ≤ depth') :
    (readWithin depth' id).run ws = (t, ws) := by
  induction depth generalizing depth' id t with
  | zero => exact h.elim
  | succ depth ih =>
    obtain ⟨depth', rfl⟩ : ∃ k, depth' = k + 1 := ⟨depth' - 1, by omega⟩
    obtain ⟨contents, targets, read, below, rfl⟩ := h
    have imports : (readTargets depth' (contents.imports.map Import.target)).run ws
        = (targets, ws) := by
      refine mapM_of_forall₂ (below.imp fun a b rel => ?_)
      cases rel with
      | none => rfl
      | some shown =>
        show ((readWithin depth' _ >>= fun t => pure (some t)).run ws) = _
        rw [StateT.run_bind, ih shown (by omega)]
        rfl
    rw [run_readWithin_succ, readConfig_of_read read]
    dsimp only
    rw [imports]

end Read

end Workspace

end BeanWiring
