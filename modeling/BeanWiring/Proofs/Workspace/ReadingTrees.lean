/-
# Reading trees

What the reading of a config with all its imports comes to.  It goes down to a depth, and
the depth is enough: configs that have been read import configs with larger ids, and configs
that are yet to be read have different names along a chain of imports, those of documents
that all exist.

Main statements:

* `Reads.wired` : what reading preserves;
* `fitsWithin_of_wired` : the depth that reading goes down to is enough;
* `shows_readTree` : after a config has been read with its imports, its tree is shown.
-/
import Mathlib.Data.List.Nodup
import Mathlib.Data.List.Perm.Subperm
import BeanWiring.Document.Store
import BeanWiring.Proofs.Config.Documents
import BeanWiring.Proofs.Config.Listing
import BeanWiring.Proofs.Workspace.Reading

namespace BeanWiring

/-! ## Finitely many documents -/

/-- No more documents exist in the source than `bound`. -/
def Bounds {σ : Type} [DocumentSource σ] (source : σ) (bound : Nat) : Prop :=
  ∀ names : List String, names.Nodup → (∀ n ∈ names, DocumentSource.has source n = true) →
    names.length ≤ bound

/-- A source with finitely many documents, whose bound for the names that imports can lead to
counts them all. -/
class FiniteSource (σ : Type) [DocumentSource σ] : Prop where
  bounds_reach : ∀ (source : σ) (name : String), Bounds source (DocumentSource.reach source name)

/-- Documents in memory are as many as they are. -/
instance : FiniteSource DocumentStore where
  bounds_reach store _ := by
    intro names once exist
    have inside : names ⊆ store.documents.map Document.name := by
      intro n hn
      have found : (Keyed.get? Document.name n store.documents).isSome = true := by
        simpa [DocumentSource.has, DocumentSource.stamp?, DocumentStore.stamp?,
          DocumentStore.document?] using exist n hn
      obtain ⟨d, hd⟩ := Option.isSome_iff_exists.1 found
      have named : Document.name d = n := by simpa using List.find?_some hd
      exact named ▸ List.mem_map_of_mem (List.mem_of_find?_eq_some hd)
    have le := (once.subperm inside).length_le
    rwa [List.length_map] at le

namespace Workspace

variable {σ : Type}

/-! ## How configs hang together -/

/-- No name comes twice in a chain of imports, and imports lead to configs made by imports,
under larger ids.  What has been read was read from documents. -/
structure Wired (ws : Workspace σ) : Prop where
  chains : ∀ id, ((ws.config id).chain ++ [(ws.config id).name]).Nodup
  imports : ∀ id c, (ws.config id).contents = some c → ∀ t ∈ c.importedConfigs,
    id.index < t.index ∧ ws.HasConfig t ∧ (ws.config t).origin.isImported = true
  documents : ∀ id c, (ws.config id).contents = some c → c.IsOfDocument

/-- Imported configs stay imported configs. -/
theorem Extends.imports {ws ws' : Workspace σ} (h : ws.Extends ws') {t : ConfigId}
    (known : ws.HasConfig t) (imported : (ws.config t).origin.isImported = true) :
    ws'.HasConfig t ∧ (ws'.config t).origin.isImported = true :=
  ⟨h.hasConfig known, (h.cells t known).origin ▸ imported⟩

/-- What is shown was read from documents. -/
theorem Shows.areOfDocuments {ws : Workspace σ} (wired : ws.Wired) {depth : Nat} {id : ConfigId}
    {t : ConfigTree} (h : ws.Shows depth id t) : t.AreOfDocuments := by
  induction depth generalizing id t with
  | zero => exact h.elim
  | succ depth ih =>
    obtain ⟨contents, targets, read, below, rfl⟩ := h
    have imported : List.Forall₂
        (fun target _ => (∀ t, target = some t → t.AreOfDocuments) ∧ True) targets
        (contents.imports.map Import.target) := by
      refine (below.imp ?_).flip
      rintro a b rel
      refine ⟨?_, trivial⟩
      rintro t rfl
      cases rel with
      | some rel => exact ih rel
    have length : targets.length = contents.imports.length := by
      rw [← below.length_eq, List.length_map]
    intro node there
    rw [ConfigTree.nodes_eq, List.mem_cons, ConfigTree.nodesOfImports_eq_flatMap,
      List.mem_flatMap] at there
    rcases there with rfl | ⟨t, listed, there⟩
    · exact (wired.documents id contents read).withTargets targets
    · have target := Contents.mem_importedConfigs.1 listed
      rw [contents.map_target_withTargets length] at target
      exact ((List.forall₂_and_left _ _).1 imported).1 _ target t rfl node there

/-- The levels of a tree that has been read are no more than there are configs. -/
theorem Shows.within {ws : Workspace σ} (wired : ws.Wired) {depth : Nat} {id : ConfigId}
    {t : ConfigTree} (h : ws.Shows depth id t) :
    ws.Shows (ws.configs.size - id.index) id t := by
  induction depth generalizing id t with
  | zero => exact h.elim
  | succ depth ih =>
    obtain ⟨contents, targets, read, below, rfl⟩ := h
    have known : id.index < ws.configs.size := hasConfig_of_contents read
    obtain ⟨k, hk⟩ : ∃ k, ws.configs.size - id.index = k + 1 :=
      ⟨ws.configs.size - id.index - 1, by omega⟩
    rw [hk]
    have inside : ∀ a ∈ contents.imports.map Import.target, ∀ j, a = some j →
        id.index < j.index := by
      rintro a ha j rfl
      exact (wired.imports id contents read j (Contents.mem_importedConfigs.2 ha)).1
    refine ⟨contents, targets, read, ?_, rfl⟩
    refine ((List.forall₂_and_left _ _).2 ⟨inside, below⟩).imp ?_
    rintro a b ⟨ha, rel⟩
    cases rel with
    | none => exact .none
    | some rel =>
      have larger := ha _ rfl
      exact .some ((ih rel).mono (by omega))

section Source

variable [DocumentSource σ]

/-- A larger id stands for a config that the first reading made for an import, or for none. -/
theorem config_afterReading_of_new {ws : Workspace σ} {id other : ConfigId}
    (known : ws.HasConfig id) (unread : (ws.config id).contents = none) (notIt : other ≠ id)
    (new : ¬ other.index < ws.configs.size) :
    ws.IsImport (ws.config id) ((ws.afterReading id).config other) ∨
      (ws.afterReading id).config other = {} := by
  rw [config_afterReading known unread, if_neg notIt, if_neg new]
  cases made : (ws.firstImports id)[other.index - ws.configs.size]? with
  | none => exact .inr rfl
  | some cell => exact .inl (isImport_of_mem_firstImports (List.mem_of_getElem? made))

/-- No chain of imports gets a name twice when a config is read. -/
theorem chains_afterReading {ws : Workspace σ} (wired : ws.Wired) {id : ConfigId}
    (known : ws.HasConfig id) (unread : (ws.config id).contents = none) (other : ConfigId) :
    (((ws.afterReading id).config other).chain ++
      [((ws.afterReading id).config other).name]).Nodup := by
  by_cases same : other = id
  · rw [config_afterReading known unread, if_pos same]
    exact wired.chains id
  · by_cases old : other.index < ws.configs.size
    · rw [config_afterReading known unread, if_neg same, if_pos old]
      exact wired.chains other
    · rcases config_afterReading_of_new known unread same old with made | none
      · exact made.once (wired.chains id)
      · rw [none]
        exact List.nodup_singleton _

/-- After the first reading of a config, what is known of others was known before. -/
theorem contents_afterReading_cases {ws : Workspace σ} {id other : ConfigId}
    {c : Contents ConfigId} (known : ws.HasConfig id) (unread : (ws.config id).contents = none)
    (read : ((ws.afterReading id).config other).contents = some c) :
    other = id ∧ c = ws.firstContents id ∨ (ws.config other).contents = some c := by
  by_cases same : other = id
  · rw [config_afterReading known unread, if_pos same] at read
    exact .inl ⟨same, (Option.some.inj read).symm⟩
  · by_cases old : other.index < ws.configs.size
    · rw [config_afterReading known unread, if_neg same, if_pos old] at read
      exact .inr read
    · rcases config_afterReading_of_new known unread same old with made | none
      · rw [made.unread] at read
        cases read
      · rw [none] at read
        cases read

/-- Reading a config keeps the workspace wired. -/
theorem wired_afterReading {ws : Workspace σ} (wired : ws.Wired) {id : ConfigId}
    (known : ws.HasConfig id) : (ws.afterReading id).Wired := by
  cases unread : (ws.config id).contents with
  | some c => rwa [afterReading_of_read unread]
  | none =>
    have ext := extends_afterReading known
    refine ⟨chains_afterReading wired known unread, ?_, ?_⟩
    · intro other c read t imported
      rcases contents_afterReading_cases known unread read with ⟨rfl, rfl⟩ | before
      · obtain ⟨new, made, cell⟩ := isImport_of_firstContents known unread imported
        have inside : other.index < ws.configs.size := known
        exact ⟨by omega, made, cell.origin⟩
      · obtain ⟨larger, known', origin⟩ := wired.imports other c before t imported
        exact ⟨larger, ext.imports known' origin⟩
    · intro other c read
      rcases contents_afterReading_cases known unread read with ⟨rfl, rfl⟩ | before
      · exact (Contents.isOfDocument_readContents _ _ _).withTargets _
      · exact wired.documents other c before

/-! ## Reading configs one after the other -/

/-- Configs were read one after the other. -/
inductive Reads : Workspace σ → Workspace σ → Prop
  | refl (ws : Workspace σ) : Reads ws ws
  | read {ws ws' : Workspace σ} (before : Reads ws ws') (id : ConfigId)
      (known : ws'.HasConfig id) : Reads ws (ws'.afterReading id)

namespace Reads

variable {ws ws' ws'' : Workspace σ}

theorem trans (h : Reads ws ws') (h' : Reads ws' ws'') : Reads ws ws'' := by
  induction h' with
  | refl => exact h
  | read _ id known ih => exact ih.read id known

/-- Reading configs extends the workspace. -/
theorem toExtends (h : Reads ws ws') : ws.Extends ws' := by
  induction h with
  | refl => exact .refl _
  | read _ id known ih => exact ih.trans (extends_afterReading known)

/-- Reading configs keeps the workspace wired. -/
theorem wired (h : Reads ws ws') (w : ws.Wired) : ws'.Wired := by
  induction h with
  | refl => exact w
  | read _ id known ih => exact wired_afterReading ih known

end Reads

/-! ## Room for a tree -/

/-- How many of the names of a config and of those that import it exist. -/
def existing (ws : Workspace σ) (cell : ConfigCell) : Nat :=
  (cell.chain ++ [cell.name]).countP (DocumentSource.has ws.source)

/-- There is room in so many levels for the tree of a config, whatever of it has been read,
where no more documents exist than `bound`. -/
def FitsWithin (ws : Workspace σ) (bound : Nat) : (depth : Nat) → ConfigId → Prop
  | 0, _ => False
  | depth + 1, id => ws.HasConfig id ∧
      (∀ c, (ws.config id).contents = some c →
        ∀ t ∈ c.importedConfigs, ws.FitsWithin bound depth t) ∧
      ((ws.config id).contents = none → bound ≤ depth + ws.existing (ws.config id))

variable {ws ws' : Workspace σ} {bound : Nat}

/-- Only a config that was made fits within a depth. -/
theorem FitsWithin.hasConfig {depth : Nat} {id : ConfigId} (h : ws.FitsWithin bound depth id) :
    ws.HasConfig id := by
  cases depth with
  | zero => exact h.elim
  | succ depth => exact h.1

/-- What fits within a depth fits within any larger one. -/
theorem FitsWithin.mono {depth depth' : Nat} {id : ConfigId}
    (h : ws.FitsWithin bound depth id) (le : depth ≤ depth') : ws.FitsWithin bound depth' id := by
  induction depth generalizing depth' id with
  | zero => exact h.elim
  | succ depth ih =>
    obtain ⟨depth', rfl⟩ : ∃ k, depth' = k + 1 := ⟨depth' - 1, by omega⟩
    obtain ⟨known, read, unread⟩ := h
    refine ⟨known, fun c hc t ht => ih (read c hc t ht) (by omega), ?_⟩
    intro none
    have := unread none
    omega

/-- The depth that reading goes down to is enough. -/
theorem fitsWithin_of_wired (wired : ws.Wired) (bound : Nat) {id : ConfigId}
    (known : ws.HasConfig id) :
    ws.FitsWithin bound (ws.configs.size - id.index + bound) id := by
  -- The induction is on the number of larger ids.
  obtain ⟨k, hk⟩ : ∃ k, ws.configs.size - id.index = k := ⟨_, rfl⟩
  induction k using Nat.strongRecOn generalizing id with
  | ind k ih =>
    have inside : id.index < ws.configs.size := known
    obtain ⟨k, rfl⟩ : ∃ j, k = j + 1 := ⟨k - 1, by omega⟩
    rw [hk, show k + 1 + bound = k + bound + 1 from by omega]
    refine ⟨known, ?_, fun _ => by omega⟩
    intro c read t imported
    obtain ⟨larger, known', -⟩ := wired.imports id c read t imported
    have fits := ih (ws.configs.size - t.index) (by omega) known' rfl
    exact fits.mono (by omega)

/-- The tree of every config fits within the bound on its depth. -/
theorem fitsWithin_depthBound (wired : ws.Wired) {id : ConfigId} (known : ws.HasConfig id) :
    ws.FitsWithin (DocumentSource.reach ws.source (ws.config id).name) (ws.depthBound id) id := by
  refine (fitsWithin_of_wired wired _ known).mono ?_
  unfold depthBound
  omega

/-- No config has more existing names on its chain than there are documents. -/
theorem existing_le (bounds : Bounds ws.source bound) {cell : ConfigCell}
    (once : (cell.chain ++ [cell.name]).Nodup) : ws.existing cell ≤ bound := by
  rw [existing, List.countP_eq_length_filter]
  refine bounds _ (once.filter _) ?_
  intro n hn
  exact (List.mem_filter.1 hn).2

/-- A config that an import makes has one more existing name. -/
theorem existing_of_isImport {cell new : ConfigCell} (h : ws.IsImport cell new) :
    ws.existing new = ws.existing cell + 1 := by
  have new_counts : [new.name].countP (DocumentSource.has ws.source) = 1 := by
    simp [h.isThere]
  rw [existing, h.chain, List.countP_append, new_counts]
  rfl

/-- Reading leaves alone how many names on a chain exist. -/
theorem existing_congr (h : ws.Extends ws') {id : ConfigId} (known : ws.HasConfig id) :
    ws'.existing (ws'.config id) = ws.existing (ws.config id) := by
  have cell := h.cells id known
  rw [existing, cell.chain, cell.name, h.source, existing]

/-- There is room for what a first reading makes, one level below what was read. -/
theorem fitsWithin_of_firstContents (wired : ws.Wired) (bounds : Bounds ws.source bound)
    {id : ConfigId} (known : ws.HasConfig id) (unread : (ws.config id).contents = none)
    {depth : Nat} (enough : bound ≤ depth + ws.existing (ws.config id)) {t : ConfigId}
    (imported : t ∈ (ws.firstContents id).importedConfigs) :
    (ws.afterReading id).FitsWithin bound depth t := by
  obtain ⟨-, made, cell⟩ := isImport_of_firstContents known unread imported
  have ext := extends_afterReading known
  have bounds' : Bounds (ws.afterReading id).source bound := ext.source ▸ bounds
  have one_more := existing_of_isImport cell
  have counted : (ws.afterReading id).existing ((ws.afterReading id).config t)
      = ws.existing ((ws.afterReading id).config t) := by
    rw [existing, ext.source, existing]
  have le := existing_le bounds' ((wired_afterReading wired known).chains t)
  obtain ⟨depth, rfl⟩ : ∃ k, depth = k + 1 := ⟨depth - 1, by omega⟩
  refine ⟨made, ?_, fun _ => by omega⟩
  intro c read
  rw [cell.unread] at read
  cases read

/-- Reading a config leaves room for every tree that there was room for. -/
theorem FitsWithin.afterReading (wired : ws.Wired) (bounds : Bounds ws.source bound)
    {id : ConfigId} (known : ws.HasConfig id) {depth : Nat} {other : ConfigId}
    (h : ws.FitsWithin bound depth other) : (ws.afterReading id).FitsWithin bound depth other := by
  cases unread : (ws.config id).contents with
  | some c => rwa [afterReading_of_read unread]
  | none =>
    have ext := extends_afterReading known
    induction depth generalizing other with
    | zero => exact h.elim
    | succ depth ih =>
      obtain ⟨known', read, room⟩ := h
      have same := existing_congr ext known'
      have kept := (ext.cells other known').contents
      refine ⟨ext.hasConfig known', ?_, ?_⟩
      · intro c hc t imported
        cases before : (ws.config other).contents with
        | some c' =>
          rw [kept c' before] at hc
          cases Option.some.inj hc
          exact ih (read c before t imported)
        | none =>
          -- The config is the one that was read, so what it imports is new.
          by_cases it : other = id
          · subst it
            rw [config_afterReading known unread, if_pos rfl] at hc
            cases Option.some.inj hc
            exact fitsWithin_of_firstContents wired bounds known unread (room before) imported
          · have old : other.index < ws.configs.size := known'
            rw [config_afterReading known unread, if_neg it, if_pos old, before] at hc
            cases hc
      · intro hc
        have before : (ws.config other).contents = none := by
          cases before : (ws.config other).contents with
          | none => rfl
          | some c =>
            rw [kept c before] at hc
            cases hc
        have enough := room before
        omega

/-- What fits within a depth still does after reading. -/
theorem Reads.fitsWithin (h : Reads ws ws') (wired : ws.Wired) (bounds : Bounds ws.source bound)
    {depth : Nat} {id : ConfigId} (fits : ws.FitsWithin bound depth id) :
    ws'.FitsWithin bound depth id := by
  induction h with
  | refl => exact fits
  | read before id known ih =>
    exact ih.afterReading (before.wired wired) (before.toExtends.source ▸ bounds) known

/-! ## Reading trees -/

/-- Actions on a list of things, each of which reads configs and makes a relation hold that
later reading preserves. -/
theorem reads_mapM {A B : Type} {f : A → StateM (Workspace σ) B} (inv : Workspace σ → Prop)
    (pre : Workspace σ → A → Prop) (post : Workspace σ → A → B → Prop)
    (step : ∀ ws a, inv ws → pre ws a →
      Reads ws ((f a).run ws).2 ∧ post ((f a).run ws).2 a ((f a).run ws).1)
    (inv_reads : ∀ ws ws', inv ws → Reads ws ws' → inv ws')
    (pre_reads : ∀ ws ws' a, inv ws → Reads ws ws' → pre ws a → pre ws' a)
    (post_reads : ∀ ws ws' a b, Reads ws ws' → post ws a b → post ws' a b)
    (xs : List A) (ws : Workspace σ) (holds : inv ws) (pres : ∀ a ∈ xs, pre ws a) :
    Reads ws ((xs.mapM f).run ws).2 ∧
      List.Forall₂ (post ((xs.mapM f).run ws).2) xs ((xs.mapM f).run ws).1 := by
  induction xs generalizing ws with
  | nil => exact ⟨.refl ws, .nil⟩
  | cons x xs ih =>
    obtain ⟨reads, first⟩ := step ws x holds (pres x List.mem_cons_self)
    obtain ⟨reads', others⟩ := ih ((f x).run ws).2 (inv_reads _ _ holds reads)
      fun a ha => pre_reads _ _ a holds reads (pres a (List.mem_cons_of_mem x ha))
    rw [run_mapM_cons]
    exact ⟨reads.trans reads', .cons (post_reads _ _ _ _ reads' first) others⟩

/-- Where there is room for a tree, all of it is shown once it has been read. -/
theorem shows_readWithin {depth : Nat} {id : ConfigId} (wired : ws.Wired)
    (bounds : Bounds ws.source bound) (fits : ws.FitsWithin bound depth id) :
    Reads ws ((readWithin depth id).run ws).2 ∧
      ((readWithin depth id).run ws).2.Shows depth id ((readWithin depth id).run ws).1 := by
  induction depth generalizing ws id with
  | zero => exact fits.elim
  | succ depth ih =>
    -- The config itself is read first; what it imports has room one level below.
    have known := fits.1
    have first : Reads ws (ws.afterReading id) := (Reads.refl ws).read id known
    have contents := contents_afterReading known
    have fits' := (first.fitsWithin wired bounds fits).2.1 _ contents
    obtain ⟨others, shown⟩ := reads_mapM
      (fun ws => ws.Wired ∧ Bounds ws.source bound)
      (fun ws target => ∀ t, target = some t → ws.FitsWithin bound depth t)
      (fun ws => Option.Rel (ws.Shows depth))
      (f := fun target => target.mapM (readWithin depth))
      (by
        intro ws target inv fits
        cases target with
        | none => exact ⟨.refl ws, .none⟩
        | some t =>
          obtain ⟨reads, shown⟩ := ih inv.1 inv.2 (fits t rfl)
          exact ⟨reads, .some shown⟩)
      (fun _ _ inv reads => ⟨reads.wired inv.1, reads.toExtends.source ▸ inv.2⟩)
      (fun _ _ _ inv reads fits t ht => reads.fitsWithin inv.1 inv.2 (fits t ht))
      (fun _ _ _ _ reads => rel_imp fun _ _ => reads.toExtends.shows)
      (((readConfig id).run ws).1.imports.map Import.target) (ws.afterReading id)
      ⟨first.wired wired, first.toExtends.source ▸ bounds⟩
      (by
        rintro _ imported t rfl
        exact fits' t (Contents.mem_importedConfigs.2 imported))
    have same := (first.trans others).toExtends.cells id known
    have later := others.toExtends.cells id (first.toExtends.hasConfig known)
    rw [run_readWithin_succ]
    refine ⟨first.trans others, _, _, later.contents _ contents, shown, ?_⟩
    exact congrArg (fun name => (⟨name, _⟩ : ConfigTree)) same.name.symm

/-- After a config has been read with its imports, its tree is shown. -/
theorem shows_readTree [FiniteSource σ] {id : ConfigId} (wired : ws.Wired)
    (known : ws.HasConfig id) :
    Reads ws ((readTree id).run ws).2 ∧
      ∃ depth, ((readTree id).run ws).2.Shows depth id ((readTree id).run ws).1 := by
  have bounds := FiniteSource.bounds_reach ws.source (ws.config id).name
  obtain ⟨reads, shown⟩ := shows_readWithin wired bounds (fitsWithin_depthBound wired known)
  rw [run_readTree]
  exact ⟨reads, ws.depthBound id, shown⟩

/-- After configs have been read one after the other, the trees of all of them are shown. -/
theorem shows_mapM_readTree [FiniteSource σ] {ids : List ConfigId} (wired : ws.Wired)
    (known : ∀ id ∈ ids, ws.HasConfig id) :
    Reads ws ((ids.mapM readTree).run ws).2 ∧
      List.Forall₂ (fun id t => ∃ depth, ((ids.mapM readTree).run ws).2.Shows depth id t) ids
        ((ids.mapM readTree).run ws).1 :=
  reads_mapM Wired HasConfig (fun ws id t => ∃ depth, ws.Shows depth id t) (f := readTree)
    (fun _ _ wired known => shows_readTree wired known)
    (fun _ _ wired reads => reads.wired wired)
    (fun _ _ _ _ reads => reads.toExtends.hasConfig)
    (fun _ _ _ _ reads shown => shown.imp fun _ => reads.toExtends.shows) ids ws wired known

/-- Reading a tree that is shown gives the tree, and leaves the workspace alone. -/
theorem readTree_of_shows {depth : Nat} {id : ConfigId} {t : ConfigTree} (wired : ws.Wired)
    (shown : ws.Shows depth id t) : (readTree id).run ws = (t, ws) := by
  have enough : ws.configs.size - id.index ≤ ws.depthBound id := by
    unfold depthBound
    omega
  rw [run_readTree]
  exact readWithin_of_shows (shown.within wired) enough

end Source

end Workspace

end BeanWiring
