/-
# Stable answers

A question to a config that is asked again has the answer that it had, as long as nothing was
reloaded and no imports were switched.  Documents may come, change and go meanwhile, and other
questions may read more configs: the first question has read the configs at the beginning of the
tree that settle its answer, and these stay as they were read.

Main statements:

* `KeepsRead` : what documents and questions leave alone, for one step and for a run;
* `answer_of_keepsRead` : a question that was answered is settled;
* `ask_eq_of_quietRun` : the second answer is the first.
-/
import BeanWiring.Proofs.Workspace.Asking
import BeanWiring.Proofs.Workspace.Changes

namespace BeanWiring.Workspace

variable {σ : Type} {ws ws' ws'' : Workspace σ}

/-! ## Documents and questions -/

/-- Configs hang together, and what has been read of them stays as it was read. -/
structure KeepsRead (ws ws' : Workspace σ) : Prop where
  grounded : ws'.Grounded
  hasConfig : ∀ id, ws.HasConfig id → ws'.HasConfig id
  contents : ∀ id c, (ws.config id).contents = some c → (ws'.config id).contents = some c

theorem KeepsRead.trans (h : KeepsRead ws ws') (h' : KeepsRead ws' ws'') : KeepsRead ws ws'' :=
  ⟨h'.grounded, fun id known => h'.hasConfig id (h.hasConfig id known),
    fun id c read => h'.contents id c (h.contents id c read)⟩

variable [DocumentSource σ]

/-- A change of documents, whichever, or a question. -/
inductive QuietStep : Workspace σ → Workspace σ → Prop
  | documents (ws : Workspace σ) (source : σ) : QuietStep ws { ws with source }
  | query {ws ws' : Workspace σ} (step : QueryStep ws ws') : QuietStep ws ws'

/-- Changes of documents and questions, one after the other. -/
abbrev QuietRun : Workspace σ → Workspace σ → Prop :=
  Relation.ReflTransGen QuietStep

theorem QuietStep.contentStep (step : QuietStep ws ws') : ContentStep ws ws' := by
  cases step with
  | documents source => exact .documents ws source
  | query step => exact .query step

section Finite

variable [FiniteSource σ]

/-- Documents and questions leave configs alone, but for those that they read. -/
theorem QuietStep.exists_extends (step : QuietStep ws ws') (h : ws.Grounded) :
    ∃ between, ws.Extends between ∧ ws'.configs = between.configs := by
  cases step with
  | documents => exact ⟨ws, .refl ws, rfl⟩
  | query step =>
    rcases step.effect h.toWired with reads | ⟨id, rfl⟩
    · exact ⟨ws', reads.toExtends, rfl⟩
    · -- A set is merged by reading; noting its merged view changes no config.
      cases unmerged : (ws.set id).merged with
      | some m =>
        rw [readSet_of_merged unmerged]
        exact ⟨ws, .refl ws, rfl⟩
      | none =>
        obtain ⟨ext, -⟩ := h.mergeSet id
        rw [run_readSet_of_unmerged unmerged]
        exact ⟨_, ext, rfl⟩

theorem QuietStep.keepsRead (step : QuietStep ws ws') (h : ws.Grounded) :
    KeepsRead ws ws' := by
  obtain ⟨between, ext, same⟩ := step.exists_extends h
  refine ⟨step.contentStep.grounded h, ?_, ?_⟩
  · intro id known
    rw [HasConfig, same]
    exact ext.hasConfig known
  · intro id c read
    rw [config_congr same]
    exact (ext.cells id (hasConfig_of_contents read)).contents c read

theorem QuietRun.keepsRead (run : QuietRun ws ws') (h : ws.Grounded) : KeepsRead ws ws' := by
  induction run with
  | refl => exact ⟨h, fun _ => id, fun _ _ => id⟩
  | tail _ step ih => exact ih.trans (step.keepsRead ih.grounded)

/-! ## Questions that were answered -/

/-- A question that was answered is settled. -/
theorem answer_of_keepsRead {α : Type} {question : ConfigTree → α × Need}
    {answer : List (Contents Empty) → α} {seeks : Contents Empty → Bool}
    (h : AnsweredBy question answer seeks) (wired : ws.Wired) {id : ConfigId}
    (known : ws.HasConfig id) (kept : KeepsRead ((askTree id question).run ws).2 ws') :
    ((askTree id question).run ws').1 = ((askTree id question).run ws).1 := by
  have one : ∀ j ∈ [id], ws.HasConfig j := fun j listed => List.mem_singleton.1 listed ▸ known
  have known' : ws'.HasConfig id :=
    kept.hasConfig id ((reads_askTree wired known question).toExtends.hasConfig known)
  have answered := run_askTree wired known h
  rw [run_askTree kept.grounded.toWired known' h, answered]
  rw [answered] at kept
  generalize reach : ConfigTree.searched seeks (ws.tree id).listing = count at kept
  -- The first configs of the tree have been read, and they still are.
  obtain ⟨entries, left, firstRead⟩ := exists_firstRead count wired one
  have reads := reads_readFirst count wired one
  have before := firstRead.listings (reads.wired wired)
  rw [reads.listings wired one, listings_singleton] at before
  have now := (firstRead.of_kept kept.contents).listings kept.grounded.toWired
  rw [listings_singleton] at now
  show answer (ws'.tree id).listing = answer (ws.tree id).listing
  rcases firstRead.length with length | rfl
  · have enough : ConfigTree.searched seeks (ws.tree id).listing ≤ entries.length :=
      Nat.le_of_eq (reach.trans length.symm)
    rw [before] at enough
    rw [now, before]
    rcases ConfigTree.any_or_nil_of_searched_le enough with found | all
    · rw [h.settled _ _ found, h.settled _ _ found]
    · rw [eq_nil_of_listings all, listings_nil, listings_nil]
  · rw [now, before, listings_nil, listings_nil]

end Finite

/-! ## Questions to a config -/

/-- What can be asked of a config, by the type of the answer. -/
inductive ConfigQuery : Type → Type where
  | beans : ConfigQuery (List Bean)
  | bean (name : String) : ConfigQuery (Option Bean)
  | aliases : ConfigQuery (List BeanAlias)
  | aliasOf (name : String) : ConfigQuery (Option BeanAlias)
  | components : ConfigQuery (List Component)
  | imports : ConfigQuery (List (Import ConfigId))
  | problems : ConfigQuery (List Diagnostic)
  | defaults : ConfigQuery DocumentDefaults
  | hasClass (className : String) : ConfigQuery Bool
  | beansOfClass (className : String) : ConfigQuery (List Bean)
  | beanClasses : ConfigQuery (List String)

namespace ConfigQuery

variable {α : Type}

/-- Asks a config. -/
def ask (id : ConfigId) : ConfigQuery α → StateM (Workspace σ) α
  | beans => Workspace.ask (.config id) fun ctx => (ctx.beans, .everything)
  | bean name => Workspace.ask (.config id) fun ctx => (ctx.bean? name, .bean name)
  | aliases => Workspace.ask (.config id) fun ctx => (ctx.aliases, .everything)
  | aliasOf name => Workspace.ask (.config id) fun ctx => (ctx.aliasOf? name, .aliasing name)
  | components => Workspace.ask (.config id) fun ctx => (ctx.components, .everything)
  | imports => do return (← readConfig id).imports
  | problems => Workspace.problems id
  | defaults => do return (← readConfig id).defaults
  | hasClass className => Workspace.hasClass (.config id) className
  | beansOfClass className => Workspace.beansOfClass (.config id) className
  | beanClasses => Workspace.beanClasses (.config id)

theorem queryStep (q : ConfigQuery α) {id : ConfigId} (known : ws.HasConfig id) :
    QueryStep ws ((q.ask id).run ws).2 := by
  cases q with
  | beans => exact .ask ws (.config id) known fun ctx => (ctx.beans, .everything)
  | bean name => exact .ask ws (.config id) known fun ctx => (ctx.bean? name, .bean name)
  | aliases => exact .ask ws (.config id) known fun ctx => (ctx.aliases, .everything)
  | aliasOf name =>
    exact .ask ws (.config id) known fun ctx => (ctx.aliasOf? name, .aliasing name)
  | components => exact .ask ws (.config id) known fun ctx => (ctx.components, .everything)
  | imports => exact .contents ws id known
  | problems => exact .problems ws id known
  | defaults => exact .contents ws id known
  | hasClass className => exact .hasClass ws (.config id) known className
  | beansOfClass className => exact .beansOfClass ws (.config id) known className
  | beanClasses => exact .beanClasses ws (.config id) known

/-- The answer from what the configs say that are asked, first one first. -/
def answer : ConfigQuery α → List (Contents ConfigId) → α
  | beans, cs => cs.flatMap Contents.beans
  | bean name, cs => cs.findSome? fun c => c.bean? name
  | aliases, cs => cs.flatMap Contents.aliases
  | aliasOf name, cs => cs.findSome? fun c => c.aliasOf? name
  | components, cs => cs.flatMap Contents.components
  | imports, cs => (cs.head?.map Contents.imports).getD []
  | problems, cs => cs.flatMap Contents.problems
  | defaults, cs => (cs.head?.map Contents.defaults).getD {}
  | hasClass className, cs => cs.any fun c => c.classIndex.hasClass className
  | beansOfClass className, cs => cs.flatMap fun c => c.classIndex.beansOf className
  | beanClasses, cs => sortStrings (Keyed.distinct (cs.flatMap fun c => c.classIndex.classes))

/-- Whether what a config says settles a question, so that its imports are not asked. -/
def isSettledBy {C : Type} : ConfigQuery α → Contents C → Bool
  | bean name, c => (c.bean? name).isSome
  | aliasOf name, c => (c.aliasOf? name).isSome
  | hasClass className, c => c.classIndex.hasClass className
  | imports, _ => true
  | defaults, _ => true
  | _, _ => false

/-- Whether a question is about a config with its imports, and not about the config alone. -/
def isOfTree : ConfigQuery α → Bool
  | imports => false
  | defaults => false
  | _ => true

variable (σ) in
/-- A question about a config with its imports is answered from the listing of the tree. -/
theorem exists_question (q : ConfigQuery α) (ofTree : q.isOfTree = true) :
    ∃ question listed, AnsweredBy question listed q.isSettledBy ∧
      (∀ id, (q.ask id : StateM (Workspace σ) α) = askTree id question) ∧
      ∀ cs, q.answer cs = listed (cs.map Contents.own) := by
  have flat : ∀ {B : Type} (f : Contents Empty → List B) (cs : List (Contents ConfigId)),
      (cs.map Contents.own).flatMap f = cs.flatMap fun c => f c.own :=
    fun _ _ => List.flatMap_map ..
  have first : ∀ {B : Type} (f : Contents Empty → Option B) (cs : List (Contents ConfigId)),
      (cs.map Contents.own).findSome? f = cs.findSome? fun c => f c.own :=
    fun _ _ => List.findSome?_map ..
  cases q with
  | imports => cases ofTree
  | defaults => cases ofTree
  | beans =>
    exact ⟨_, _, answeredBy_flatMap Contents.beans, fun _ => rfl,
      fun cs => (flat Contents.beans cs).symm⟩
  | aliases =>
    exact ⟨_, _, answeredBy_flatMap Contents.aliases, fun _ => rfl,
      fun cs => (flat Contents.aliases cs).symm⟩
  | components =>
    exact ⟨_, _, answeredBy_flatMap Contents.components, fun _ => rfl,
      fun cs => (flat Contents.components cs).symm⟩
  | problems =>
    exact ⟨_, _, answeredBy_flatMap Contents.problems, fun _ => rfl,
      fun cs => (flat Contents.problems cs).symm⟩
  | bean name =>
    exact ⟨_, _, answeredBy_bean? name, fun _ => rfl,
      fun cs => (first (fun entry => entry.bean? name) cs).symm⟩
  | aliasOf name =>
    exact ⟨_, _, answeredBy_aliasOf? name, fun _ => rfl,
      fun cs => (first (fun entry => entry.aliasOf? name) cs).symm⟩
  | hasClass className =>
    refine ⟨_, _, answeredBy_any (fun entry => entry.classIndex.hasClass className)
      (fun _ => rfl) (fun _ => rfl) (fun _ => rfl), fun _ => rfl, ?_⟩
    intro cs
    rw [List.any_map]
    rfl
  | beansOfClass className =>
    exact ⟨_, _, answeredBy_flatMap fun entry => entry.classIndex.beansOf className, fun _ => rfl,
      fun cs => (flat (fun entry => entry.classIndex.beansOf className) cs).symm⟩
  | beanClasses =>
    refine ⟨_, fun entries => sortStrings (Keyed.distinct
      (entries.flatMap fun entry => entry.classIndex.classes)), answeredBy_everything ?_,
      fun _ => rfl, ?_⟩
    · intro t
      exact congrArg (fun classes => sortStrings (Keyed.distinct classes))
        (t.flatMap_nodes fun entry => entry.classIndex.classes)
    · intro cs
      exact congrArg (fun classes => sortStrings (Keyed.distinct classes))
        (flat (fun entry => entry.classIndex.classes) cs).symm

variable (σ) in
/-- A question is answered from the listing of the tree, or from what the config itself says. -/
theorem exists_answer (q : ConfigQuery α) (id : ConfigId) :
    (∃ question answer seeks, AnsweredBy question answer seeks ∧
      (q.ask id : StateM (Workspace σ) α) = askTree id question) ∨
    ∃ f : Contents ConfigId → α, (q.ask id : StateM (Workspace σ) α) = f <$> readConfig id := by
  by_cases ofTree : q.isOfTree = true
  · obtain ⟨question, listed, answered, ask, -⟩ := q.exists_question σ ofTree
    exact .inl ⟨question, listed, _, answered, ask id⟩
  · cases q with
    | imports => exact .inr ⟨Contents.imports, rfl⟩
    | defaults => exact .inr ⟨Contents.defaults, rfl⟩
    | _ => exact absurd rfl ofTree

end ConfigQuery

variable [FiniteSource σ]

/-- **Stability.**  A question to a config that is asked again has the same answer, whatever
documents changed and whatever else was asked meanwhile. -/
theorem ask_eq_of_quietRun {α : Type} (start : FreelyReachable ws) {id : ConfigId}
    (known : ws.HasConfig id) (q : ConfigQuery α) (run : QuietRun ((q.ask id).run ws).2 ws') :
    ((q.ask id).run ws').1 = ((q.ask id).run ws).1 := by
  have asked : ((q.ask id).run ws).2.Grounded :=
    (ContentStep.query (q.queryStep known)).grounded start.grounded
  have kept := QuietRun.keepsRead run asked
  rcases q.exists_answer σ id with ⟨question, answer, seeks, answered, ask⟩ | ⟨f, ask⟩
  · rw [ask] at kept ⊢
    exact answer_of_keepsRead answered start.grounded.toWired known kept
  · rw [ask] at kept ⊢
    have read := kept.contents id _ (contents_afterReading known)
    have again : ((readConfig id).run ws').1 = ((readConfig id).run ws).1 := by
      rw [readConfig_of_read read]
    exact congrArg f again

/-! ### A document that goes away -/

/-- A bean of its own class. -/
def ownClass (name : String) : Event :=
  .bean { name, aliases := [], definition := { className := some name, location := .unknown "" } }

/-- A document that imports another; both have a bean. -/
def importingReader : DocumentReader :=
  .scripted [("a.xml", [ownClass "first", .importing "b.xml" (.unknown "a.xml")]),
    ("b.xml", [ownClass "second"])]

/-- A project with the first document as its config. -/
def importing : Workspace DocumentStore :=
  let ws : Workspace DocumentStore := { source := {} }
  let ws := (ws.useProject { name := "demo", reader := importingReader }).2
  { ws with source := (ws.source.put "a.xml" "").put "b.xml" "" }.addConfigs ⟨0⟩ ["a.xml"]

theorem reachable_importing : Reachable importing := by
  have empty : Reachable ({ source := {} } : Workspace DocumentStore) := .start _
  have used := empty.management (.useProject _ "demo" importingReader {} {})
  exact (used.content (.documents _ _)).management (.addConfigs _ _ _)

/-- The config was asked for the bean of the other document, which was removed then. -/
def importGone : Workspace DocumentStore :=
  let ws := (((ConfigQuery.bean "second").ask ⟨0⟩).run importing).2
  { ws with source := ws.source.remove "b.xml" }

/-- The config still has the bean, also after it was asked whether it has some class. -/
theorem second_of_importGone :
    (((ConfigQuery.bean "second").ask ⟨0⟩).run
      (((ConfigQuery.hasClass "first").ask ⟨0⟩).run importGone).2).1.map Bean.name
        = some "second" := by
  have known : importing.HasConfig ⟨0⟩ := by decide
  have removed : QuietRun (((ConfigQuery.bean "second").ask ⟨0⟩).run importing).2 importGone :=
    .single (.documents _ _)
  have known' : importGone.HasConfig ⟨0⟩ := by decide
  have run := removed.tail (.query ((ConfigQuery.hasClass "first").queryStep known'))
  rw [ask_eq_of_quietRun reachable_importing.freely known (ConfigQuery.bean "second") run]
  rfl

end BeanWiring.Workspace
