/-
# Consistent answers

A config is asked for a name along its imports and stops at the first that has it, a set looks in
what it was merged to, and a registry in what was registered.  Whichever of them is asked, and
however much of it had been read before, a look-up by name agrees with the lists of everything that
it holds.

Main statements:

* `answeredBy_resolve?` : what a name stands for, told by the listing of a config;
* `lookups_areConsistent` : configs, config sets and registries are consistent.
-/
import BeanWiring.Proofs.Lookup.Consistency
import BeanWiring.Proofs.Workspace.Policies

namespace BeanWiring.Workspace

/-! ## What a name stands for -/

/-- What a name stands for among listed contents. -/
def resolveListed (name : String) (listing : List (Contents Empty)) : Option Bean :=
  ((listing.findSome? fun c => c.bean? name).or
    ((listing.findSome? fun c => c.aliasOf? name).bind fun a =>
      listing.findSome? fun c => c.bean? a.beanName)).or
    (findInComponents? name (listing.flatMap Contents.components))

/-- The question what a name stands for.  Contents after the first bean of the name do not
matter. -/
theorem answeredBy_resolve? (name : String) :
    AnsweredBy (fun t => (t.toContext.resolve? name, .names [name])) (resolveListed name)
      fun entry => (entry.bean? name).isSome where
  answers := by
    intro t
    have bean : ∀ n, t.toContext.bean? n = t.listing.findSome? fun c => c.bean? n :=
      fun n => (answeredBy_bean? n).answers t
    have aliasOf : t.toContext.aliasOf? name = t.listing.findSome? fun c => c.aliasOf? name :=
      (answeredBy_aliasOf? name).answers t
    have components : t.toContext.components = t.listing.flatMap Contents.components :=
      (answeredBy_flatMap Contents.components).answers t
    simp only [Context.resolve?, resolveListed, bean, aliasOf, components]
  reach := by
    intro t
    have one : (Need.names [name]).reach t
        = max 0 (ConfigTree.reachAmong t.nodes fun c => (c.bean? name).isSome) := rfl
    rw [one, Nat.zero_max]
    exact (answeredBy_bean? name).reach t
  isMetBy := by
    intro t
    have one : (Need.names [name]).isMetBy t = ((t.bean? name).isSome && true) := rfl
    rw [one, Bool.and_true]
    exact (answeredBy_bean? name).isMetBy t
  settled := by
    intro front back found
    have settled := (answeredBy_bean? name).settled front back found
    obtain ⟨b, first⟩ : ∃ b, front.findSome? (fun c => c.bean? name) = some b := by
      rw [← Option.isSome_iff_exists, ConfigTree.isSome_findSome?]
      exact found
    have whole : (front ++ back).findSome? (fun c => c.bean? name) = some b := settled.trans first
    rw [resolveListed, resolveListed, whole, first]
    rfl

/-! ## Answers -/

variable {σ : Type} [DocumentSource σ]

/-- The components of a config or of a config set, when it is asked. -/
def components (ws : Workspace σ) (id : ContextId) : List Component :=
  ((ask id fun ctx => (ctx.components, .everything)).run ws).1

/-- The bean that a name stands for in it. -/
def resolve? (ws : Workspace σ) (id : ContextId) (name : String) : Option Bean :=
  ((ask id fun ctx => (ctx.resolve? name, .names [name])).run ws).1

/-- What it answers is consistent. -/
def AnswersConsistently (ws : Workspace σ) (id : ContextId) : Prop :=
  IsConsistent (ws.beans id) (ws.aliases id) (ws.components id) (ws.bean? id) (ws.aliasOf? id)
    (ws.resolve? id)

variable [FiniteSource σ] {ws : Workspace σ}

theorem components_config (wired : ws.Wired) {c : ConfigId} (known : ws.HasConfig c) :
    ws.components (.config c) = (ws.tree c).components :=
  answer_askTree wired known (answeredBy_flatMap Contents.components)

/-- A config answers as its tree does. -/
theorem answersConsistently_config (wired : ws.Wired) {c : ConfigId} (known : ws.HasConfig c) :
    ws.AnswersConsistently (.config c) := by
  have bean? : ws.bean? (.config c) = (ws.tree c).toContext.bean? :=
    funext fun name => answer_askTree wired known (answeredBy_bean? name)
  have aliasOf? : ws.aliasOf? (.config c) = (ws.tree c).toContext.aliasOf? :=
    funext fun name => answer_askTree wired known (answeredBy_aliasOf? name)
  have resolve? : ws.resolve? (.config c) = (ws.tree c).toContext.resolve? :=
    funext fun name => answer_askTree wired known (answeredBy_resolve? name)
  rw [AnswersConsistently, beans_config wired known, aliases_config wired known,
    components_config wired known, bean?, aliasOf?, resolve?]
  exact (ws.tree c).toContext.isConsistent

/-- What it looks up, config by config along its imports, is what it answers. -/
theorem lookUps_config (wired : ws.Wired) {c : ConfigId} (known : ws.HasConfig c) :
    (ws.tree c).bean? = ws.bean? (.config c) ∧ (ws.tree c).aliasOf? = ws.aliasOf? (.config c) := by
  constructor
  · funext name
    rw [← (ws.tree c).bean?_toContext]
    exact (answer_askTree wired known (answeredBy_bean? name)).symm
  · funext name
    rw [← (ws.tree c).aliasOf?_toContext]
    exact (answer_askTree wired known (answeredBy_aliasOf? name)).symm

omit [FiniteSource σ] in
/-- A set answers as its merged view does. -/
theorem answersConsistently_set (ws : Workspace σ) (set : SetId) :
    ws.AnswersConsistently (.set set) :=
  (((readSet set).run ws).1.toContext (ws.set set).name).isConsistent

/-- A set has one bean and one alias of a name at most, whatever trees it was merged from. -/
theorem nodup_set (steady : ws.Steady) (set : SetId) :
    ((ws.beans (.set set)).map Bean.name).Nodup ∧
      ((ws.aliases (.set set)).map BeanAlias.name).Nodup := by
  obtain ⟨trees, -, -, view⟩ := steady.exists_trees set
  have follows := followsPolicies_of_trees view
  rw [follows.beans.keys, follows.aliases.keys]
  exact ⟨Keyed.nodup_distinct _, Keyed.nodup_distinct _⟩

/-- **Consistent look-ups.**  In every config, in every config set and in every registry that
registrations have filled, a look-up by name finds the first bean or alias of the name among all of
them, and what a name stands for, its own name stands for.  The look-up of a config asks its own
document and then each import in turn, that of a set asks its merged view; both are what the config
or the set answers.  In a set and in a registry the first bean and the first alias of a name are
the only ones. -/
theorem lookups_areConsistent (reachable : FreelyReachable ws) :
    (∀ c, ws.HasConfig c → ws.AnswersConsistently (.config c) ∧
      IsConsistent (ws.beans (.config c)) (ws.aliases (.config c)) (ws.components (.config c))
        (ws.tree c).bean? (ws.tree c).aliasOf? (ws.resolve? (.config c))) ∧
    (∀ set, ws.AnswersConsistently (.set set) ∧
      IsConsistent (ws.beans (.set set)) (ws.aliases (.set set)) (ws.components (.set set))
        ((readSet set).run ws).1.bean? ((readSet set).run ws).1.aliasOf?
        (ws.resolve? (.set set)) ∧
      ((ws.beans (.set set)).map Bean.name).Nodup ∧
      ((ws.aliases (.set set)).map BeanAlias.name).Nodup) ∧
    ∀ r : Registry, r.Reached →
      IsConsistent r.beans r.aliases r.components r.toContext.bean? r.toContext.aliasOf?
        r.toContext.resolve? ∧
      r.Distinct := by
  have steady := reachable.steady
  refine ⟨fun c known => ?_, fun set => ?_, fun r reached => ?_⟩
  · have consistent := answersConsistently_config steady.toWired known
    obtain ⟨bean?, aliasOf?⟩ := lookUps_config steady.toWired known
    rw [bean?, aliasOf?]
    exact ⟨consistent, consistent⟩
  · have consistent := answersConsistently_set ws set
    exact ⟨consistent, consistent, nodup_set steady set⟩
  · exact ⟨r.toContext.isConsistent, reached.distinct⟩

/-- A config that declares a bean, and imports another one of its name, has the bean itself; so has
a registry that refuses the other. -/
theorem resolve?_repeating :
    (repeating.beans (.config ⟨0⟩)).map Bean.resource = ["a.xml", "b.xml"] ∧
      (repeating.bean? (.config ⟨0⟩) "shared").map Bean.resource = some "a.xml" ∧
      (∀ b, repeating.resolve? (.config ⟨0⟩) "shared" = some b →
        repeating.resolve? (.config ⟨0⟩) b.name = some b) ∧
      ((((Registry.forConfig "a.xml").registerAll (repeating.tree ⟨0⟩).toContext).beans).map
        Bean.name).Nodup := by
  obtain ⟨configs, -, registries⟩ := lookups_areConsistent reachable_repeating.freely
  obtain ⟨consistent, -⟩ := configs ⟨0⟩ (by decide)
  have reached : ((Registry.forConfig "a.xml").registerAll
      (repeating.tree ⟨0⟩).toContext).Reached :=
    (Registry.Reached.empty "a.xml" .config false false).registerAll _
  refine ⟨by decide +kernel, ?_, consistent.itself "shared", (registries _ reached).2.beans⟩
  rw [consistent.bean]
  decide +kernel

end BeanWiring.Workspace
