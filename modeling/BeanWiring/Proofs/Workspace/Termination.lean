/-
# Termination

A config is asked before what it imports, and each of these before the next, until one of them
settles the question.  Nothing bounds beforehand how many configs will be asked, since what a config
imports is only made when the config is read.  But there is an end to it, whatever the documents
import, and the answer is the one that the bounded reading gives.

Main statements:

* `Asks.unique` : there is only one way to ask;
* `exists_asks` : there is an end to it, after as many configs as are searched in the tree;
* `importExpansion` : questions end, and what becomes of import elements.
-/
import BeanWiring.Proofs.Workspace.ImportPaths
import BeanWiring.Proofs.Workspace.Stability

namespace BeanWiring.Workspace

variable {σ : Type} [DocumentSource σ] {ws ws' ws'' : Workspace σ}

/-! ## Asking without bounds -/

/-- Configs are asked in turn, each one before what it imports, until one of them settles the
question.  They are read for it when their turn comes.  What they say is listed, first one first. -/
inductive Asks (settles : Contents ConfigId → Bool) :
    Workspace σ → List ConfigId → List (Contents ConfigId) → Workspace σ → Prop
  | done (ws : Workspace σ) : Asks settles ws [] [] ws
  | settled {ws : Workspace σ} {id : ConfigId} (rest : List ConfigId)
      (found : settles ((readConfig id).run ws).1 = true) :
      Asks settles ws (id :: rest) [((readConfig id).run ws).1] (ws.afterReading id)
  | next {ws ws' : Workspace σ} {id : ConfigId} {rest : List ConfigId}
      {cs : List (Contents ConfigId)} (unsettled : settles ((readConfig id).run ws).1 = false)
      (further : Asks settles (ws.afterReading id)
        (((readConfig id).run ws).1.importedConfigs ++ rest) cs ws') :
      Asks settles ws (id :: rest) (((readConfig id).run ws).1 :: cs) ws'

/-- There is only one way to ask. -/
theorem Asks.unique {settles : Contents ConfigId → Bool} {ids : List ConfigId}
    {cs cs' : List (Contents ConfigId)} (h : Asks settles ws ids cs ws')
    (h' : Asks settles ws ids cs' ws'') : cs' = cs ∧ ws'' = ws' := by
  induction h generalizing cs' with
  | done => cases h' with | done => exact ⟨rfl, rfl⟩
  | settled rest found =>
    cases h' with
    | settled => exact ⟨rfl, rfl⟩
    | next unsettled =>
      rw [found] at unsettled
      cases unsettled
  | next unsettled _ ih =>
    cases h' with
    | settled _ found =>
      rw [unsettled] at found
      cases found
    | next _ further =>
      obtain ⟨rfl, rfl⟩ := ih further
      exact ⟨rfl, rfl⟩

variable [FiniteSource σ]

/-- The listing of configs begins with what the first of them says. -/
theorem listings_cons (wired : ws.Wired) {id : ConfigId} {rest : List ConfigId}
    (known : ∀ j ∈ id :: rest, ws.HasConfig j) :
    ws.listings (id :: rest) = ((readConfig id).run ws).1.own ::
      (ws.afterReading id).listings (((readConfig id).run ws).1.importedConfigs ++ rest) := by
  have first : Reads ws (ws.afterReading id) :=
    (Reads.refl ws).read id (known id List.mem_cons_self)
  have contents := contents_afterReading (known id List.mem_cons_self)
  rw [← first.listings wired known, listings, List.flatMap_cons,
    listing_of_read (first.wired wired) contents, List.cons_append, listings, listings,
    List.flatMap_append]

/-- There is an end to it: as many configs are asked as are searched in the trees. -/
theorem exists_asks (settles : Contents Empty → Bool) (wired : ws.Wired) {ids : List ConfigId}
    (known : ∀ id ∈ ids, ws.HasConfig id) :
    ∃ cs, Asks (fun c => settles c.own) ws ids cs
        ((readFirst (ConfigTree.searched settles (ws.listings ids)) ids).run ws).2 ∧
      cs.map Contents.own
        = (ws.listings ids).take (ConfigTree.searched settles (ws.listings ids)) := by
  -- The trees that are left shrink with every config that is asked.
  obtain ⟨size, full⟩ : ∃ n, (ws.listings ids).length = n := ⟨_, rfl⟩
  induction size generalizing ws ids with
  | zero =>
    cases eq_nil_of_listings (List.length_eq_zero_iff.1 full)
    exact ⟨[], .done ws, rfl⟩
  | succ size ih =>
    cases ids with
    | nil => cases full
    | cons id rest =>
      have known' := known id List.mem_cons_self
      have first : Reads ws (ws.afterReading id) := (Reads.refl ws).read id known'
      have contents := contents_afterReading known'
      have wired' := first.wired wired
      have listing := listings_cons wired known
      have below : ∀ j ∈ ((readConfig id).run ws).1.importedConfigs ++ rest,
          (ws.afterReading id).HasConfig j := by
        intro j listed
        rcases List.mem_append.1 listed with imported | later
        · exact (wired'.imports id _ contents j imported).2.1
        · exact first.toExtends.hasConfig (known j (List.mem_cons_of_mem id later))
      rw [listing, ConfigTree.searched_cons]
      by_cases found : settles ((readConfig id).run ws).1.own = true
      · rw [if_pos found]
        exact ⟨_, .settled rest found, rfl⟩
      · rw [if_neg found]
        rw [listing, List.length_cons] at full
        obtain ⟨cs, further, said⟩ := ih wired' below (Nat.succ.inj full)
        refine ⟨_, .next (by simpa using found) further, ?_⟩
        rw [List.map_cons, said, List.take_succ_cons]

/-! ## Questions -/

omit [DocumentSource σ] [FiniteSource σ] in
theorem ConfigQuery.isSettledBy_own {α : Type} (q : ConfigQuery α) (c : Contents ConfigId) :
    q.isSettledBy c.own = q.isSettledBy c := by
  cases q <;> rfl

/-- Every question to a config comes to an end, and the configs that were asked make the answer. -/
theorem ConfigQuery.exists_asks {α : Type} (q : ConfigQuery α) (wired : ws.Wired) {id : ConfigId}
    (known : ws.HasConfig id) :
    ∃ cs ws', Asks q.isSettledBy ws [id] cs ws' ∧ (q.ask id).run ws = (q.answer cs, ws') := by
  have settles : (fun c : Contents ConfigId => q.isSettledBy c.own) = q.isSettledBy :=
    funext q.isSettledBy_own
  by_cases ofTree : q.isOfTree = true
  · obtain ⟨question, listed, answered, ask, answer⟩ := q.exists_question σ ofTree
    have one : ∀ j ∈ [id], ws.HasConfig j := fun j listed => List.mem_singleton.1 listed ▸ known
    obtain ⟨cs, asks, said⟩ := Workspace.exists_asks q.isSettledBy wired one
    rw [settles, listings_singleton] at asks
    rw [listings_singleton] at said
    refine ⟨cs, _, asks, ?_⟩
    have run := run_askTree wired known answered
    rw [ask, run, answer, said, answered.answer_take]
  · cases q with
    | imports => exact ⟨_, _, .settled [] rfl, rfl⟩
    | defaults => exact ⟨_, _, .settled [] rfl, rfl⟩
    | _ => exact absurd rfl ofTree

/-! ## Import graphs -/

/-- **Import graphs.**  Whatever the documents import, and whatever of a config and of its imports
has been read:

* every question to the config comes to an end, and the configs that were asked make the answer;
* on every path through its tree, and among the configs that it is itself imported by, the names
  are distinct;
* if it had not been read, then each config of the tree has one import for each import element of
  its document.  The import pulls a config in exactly if imports are enabled, the name that it leads
  to exists, and neither the config nor one of those above it has the name.  An element that leads
  back to one of these leaves one warning with the config, or none if the name that it leads to
  has the text of the problems that are never shown. -/
theorem importExpansion (start : FreelyReachable ws) {id : ConfigId} (known : ws.HasConfig id)
    (reads : Reads ws ws') :
    (∀ {α : Type} (q : ConfigQuery α), ∃ cs ws'',
      Asks q.isSettledBy ws' [id] cs ws'' ∧ (q.ask id).run ws' = (q.answer cs, ws'')) ∧
    ∀ above node, (ws'.tree id).Leads above node →
      ((ws.config id).chain ++ above ++ [node.name]).Nodup ∧
      ((ws.config id).contents = none →
        let s := ws.surroundingsBelow (ws.config id) above node
        let events := (ws.project (ws.config id).project).reader.yields ws.source node.name
        Contents.Expands s events (node.contents.mapTargets ConfigTree.name) ∧
        ∀ resource location, s.importsEnabled = true → s.LeadsBack resource →
          s.notes (.importing resource location)
            = if Text.mentions Document.placeholderImport.toList
                (resolveImport s.name resource).toList
              then [] else [(s.cycleWarning resource location).toDiagnostic]) := by
  have wired := start.grounded.toWired
  have known' := reads.toExtends.hasConfig known
  have same : ws'.tree id = ws.tree id :=
    (foretells_of_reads reads wired).tree wired (reads.wired wired) known
  rw [same]
  refine ⟨fun q => q.exists_asks (reads.wired wired) known', fun above node path => ⟨?_, ?_⟩⟩
  · exact nodup_of_leads start known path
  · intro unread
    exact ⟨expands_of_leads start known unread path,
      fun _ location enabled back => Contents.Surroundings.notes_of_cycle enabled back location⟩

/-! ### A name with the text of a problem -/

/-- Two documents that import each other.  One of them has an unusual name, and imports itself. -/
def silentReader : DocumentReader :=
  .scripted
    [("a.xml", [.importing Document.placeholderImport (.unknown "a.xml")]),
    (Document.placeholderImport, [.importing Document.placeholderImport (.unknown "b"),
      .importing "a.xml" (.unknown "b")])]

/-- A project with the first document as its config. -/
def silent : Workspace DocumentStore :=
  let ws : Workspace DocumentStore := { source := {} }
  let ws := (ws.useProject { name := "demo", reader := silentReader }).2
  { ws with source := (ws.source.put "a.xml" "").put Document.placeholderImport "" }.addConfigs
    ⟨0⟩ ["a.xml"]

theorem reachable_silent : Reachable silent := by
  have empty : Reachable ({ source := {} } : Workspace DocumentStore) := .start _
  have used := empty.management (.useProject _ "demo" silentReader {} {})
  exact (used.content (.documents _ _)).management (.addConfigs _ _ _)

/-- Below the config there is only that of the other document.  Both of its imports lead back, but
there is only one warning. -/
theorem warnings_silent : ∃ node, (silent.tree ⟨0⟩).Leads ["a.xml"] node ∧
    (["a.xml"] ++ [node.name]).Nodup ∧ node.contents.imports.length = 2 ∧
    node.contents.problems.map Diagnostic.message
      = ["Import cycle detected for resource 'a.xml'"] ∧
    ∃ cs ws, Asks ConfigQuery.problems.isSettledBy silent [⟨0⟩] cs ws := by
  have known : silent.HasConfig ⟨0⟩ := by decide
  obtain ⟨ends, paths⟩ := importExpansion reachable_silent.freely known (.refl silent)
  have names : (silent.tree ⟨0⟩).name = "a.xml" ∧
      (silent.tree ⟨0⟩).contents.importedConfigs.map ConfigTree.name
        = [Document.placeholderImport] := by
    decide +kernel
  obtain ⟨root, imported⟩ := names
  obtain ⟨node, below, name⟩ := List.map_eq_singleton_iff.1 imported
  have path : (silent.tree ⟨0⟩).Leads ["a.xml"] node :=
    root ▸ .down (below ▸ List.mem_singleton_self node) (.here node)
  obtain ⟨once, expanded⟩ := paths _ node path
  have top : (silent.config ⟨0⟩).chain = [] := by decide +kernel
  rw [top, List.nil_append] at once
  obtain ⟨⟨imports, problems⟩, -⟩ := expanded (by decide +kernel)
  obtain ⟨cs, ws, asks, -⟩ := ends ConfigQuery.problems
  refine ⟨node, path, once, ?_, ?_, cs, ws, asks⟩
  · have length := imports.length_eq
    rw [Contents.imports_mapTargets, List.length_map, name] at length
    exact length.symm
  · have messages : node.contents.problems = _ := problems
    rw [messages, Workspace.surroundingsBelow, name]
    decide +kernel

end BeanWiring.Workspace
