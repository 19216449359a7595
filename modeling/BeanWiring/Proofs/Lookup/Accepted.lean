/-
# What a registry has accepted

A registry after any sequence of calls, told by the beans and aliases that it accepted.  A call
registers one entry, which may be refused, or all that a context declares, where clashes are
passed over.  The tables of beans and of aliases follow policies of their own, and what is refused
leaves no trace.

Main statements:

* `FilledBy.register`, `FilledBy.run` : after a registration, and so after all calls, the tables
  are made of the entries accepted so far;
* `retains_run` : an answer stays where nothing may be replaced;
* `run_keeps_accepted` : what a registry answers after a sequence of calls.
-/
import BeanWiring.Proofs.Lookup.Consistency

namespace BeanWiring

namespace Registry

/-! ## Calls -/

/-- What is registered at a time. -/
inductive Entry where
  | bean (bean : Bean)
  | aliasing (it : BeanAlias)
  | component (component : Component)

/-- The bean of an entry. -/
def Entry.bean? : Entry → Option Bean
  | bean b => some b
  | aliasing _ => none
  | component _ => none

/-- The alias of an entry. -/
def Entry.alias? : Entry → Option BeanAlias
  | bean _ => none
  | aliasing a => some a
  | component _ => none

/-- Registers an entry, unless it is refused; components never are. -/
def register (r : Registry) : Entry → Except RegistryError Registry
  | .bean b => r.registerBean b
  | .aliasing a => r.registerAlias a
  | .component c => .ok (r.registerComponent c)

/-- A call of a registry. -/
inductive Call where
  /-- Register an entry. -/
  | one (entry : Entry)
  /-- Register all that a context declares. -/
  | all (ctx : Context)

/-- The entries of a call in order.  Those of a bean are the bean and the aliases it lists. -/
def Call.entries : Call → List Entry
  | one e => [e]
  | all ctx =>
    ctx.beans.flatMap (fun b => .bean b :: (ownAliases b).map .aliasing) ++
      ctx.aliases.map .aliasing ++ ctx.components.map .component

/-- Does a call: an entry of its own may be refused, those of a context are passed over. -/
def perform (r : Registry) : Call → Except RegistryError Registry
  | .one e => r.register e
  | .all ctx => .ok (r.registerAll ctx)

/-- The registry after a call. -/
def after (r : Registry) (c : Call) : Registry := r.orUnchanged (r.perform c)

/-- The registry after calls. -/
def run (r : Registry) (calls : List Call) : Registry := calls.foldl after r

/-- The registry after entries, each registered unless it is refused. -/
def take (r : Registry) (entries : List Entry) : Registry :=
  entries.foldl (fun r e => r.orUnchanged (r.register e)) r

/-- Those of some entries that are accepted if they are registered in order. -/
def accepted (r : Registry) : List Entry → List Entry
  | [] => []
  | e :: es =>
    match r.register e with
    | .ok s => e :: s.accepted es
    | .error _ => r.accepted es

/-- The entries that are accepted in the course of calls. -/
def acceptedBy (r : Registry) : List Call → List Entry
  | [] => []
  | c :: cs => r.accepted c.entries ++ (r.after c).acceptedBy cs

variable {r s : Registry}

/-- Entries taken in two goes are taken in one. -/
theorem take_append (r : Registry) (es fs : List Entry) :
    r.take (es ++ fs) = (r.take es).take fs :=
  List.foldl_append

/-- Registering a context is registering its entries in order. -/
theorem registerAll_eq_take (r : Registry) (ctx : Context) :
    r.registerAll ctx = r.take (Call.all ctx).entries := by
  have aliases : ∀ (r : Registry) (as : List BeanAlias), r.take (as.map .aliasing)
      = as.foldl (fun r a => r.orUnchanged (r.registerAlias a)) r := fun r as => List.foldl_map
  have beans : ∀ (r : Registry) (bs : List Bean),
      r.take (bs.flatMap fun b => .bean b :: (ownAliases b).map .aliasing)
        = bs.foldl registerWithAliases r := by
    intro r bs
    induction bs generalizing r with
    | nil => rfl
    | cons b bs ih =>
      rw [List.flatMap_cons, take_append, ih, List.foldl_cons, registerWithAliases, ← aliases]
      rfl
  have components : ∀ (r : Registry) (cs : List Component), r.take (cs.map .component)
      = cs.foldl registerComponent r := fun r cs => List.foldl_map
  rw [Call.entries, take_append, take_append, beans, aliases, components]
  rfl

/-- A call is its entries registered in order. -/
theorem after_eq_take (r : Registry) (c : Call) : r.after c = r.take c.entries := by
  cases c with
  | one e => rfl
  | all ctx => exact registerAll_eq_take r ctx

/-! ## Tables of aliases -/

section Aliases

variable {allowed : Bool} {aliases : List BeanAlias}

/-- A further alias joins the aliases or is dropped. -/
theorem eq_or_mem_of_mem_addAlias {a x : BeanAlias} (h : x ∈ addAlias allowed aliases a) :
    x = a ∨ x ∈ aliases := by
  rcases addAlias_cases allowed aliases a with ⟨same, -⟩ | ⟨written, -⟩
  · rw [same] at h
    exact .inr h
  · rw [written] at h
    exact Keyed.eq_or_mem_of_mem_put h

/-- Adding a proper alias keeps the names in order and adds its own at the end if it is new. -/
theorem names_addAlias {a : BeanAlias} (proper : isProper a = true) :
    (addAlias allowed aliases a).map BeanAlias.name
      = if a.name ∈ aliases.map BeanAlias.name then aliases.map BeanAlias.name
        else aliases.map BeanAlias.name ++ [a.name] := by
  rcases addAlias_cases allowed aliases a with ⟨same, taken⟩ | ⟨written, -⟩
  · rw [same, if_pos (taken proper)]
  · rw [written, Keyed.keys_put]

/-- The names after many proper aliases are the distinct ones of all, first ones first. -/
theorem names_foldl_addAlias (proper : ∀ a ∈ aliases, isProper a = true) :
    (aliases.foldl (addAlias allowed) []).map BeanAlias.name
      = Keyed.distinct (aliases.map BeanAlias.name) := by
  induction aliases using List.reverseRecOn with
  | nil => rfl
  | append_singleton aliases a ih =>
    have earlier := ih fun x hx => proper x (List.mem_append_left _ hx)
    have last := proper a (List.mem_append_right _ (List.mem_singleton_self a))
    rw [List.foldl_append, List.foldl_cons, List.foldl_nil, names_addAlias last, earlier,
      List.map_append, List.map_singleton, Keyed.distinct_concat]

/-- Where nothing may be overridden, an alias that is there stays. -/
theorem get?_addAlias_of_some {name : String} {a existing : BeanAlias}
    (there : Keyed.get? BeanAlias.name name aliases = some existing) :
    Keyed.get? BeanAlias.name name (addAlias false aliases a) = some existing := by
  rcases addAlias_cases false aliases a with ⟨same, -⟩ | ⟨written, -, new⟩
  · rw [same, there]
  · have other : a.name ≠ name := by
      rintro rfl
      rw [new rfl] at there
      cases there
    rw [written, Keyed.get?_put, if_neg other, there]

end Aliases

/-! ## Tables of accepted entries -/

/-- An alias that is accepted has another name than its bean. -/
theorem isProper_of_registerAlias {a : BeanAlias} (ok : r.registerAlias a = .ok s) :
    isProper a = true := by
  by_cases own : a.name = a.beanName
  · rw [registerAlias, if_pos own] at ok
    cases ok
  · simpa [isProper] using own

/-- The tables of a registry are made of these entries, each added in its turn. -/
structure FilledBy (allowBeans allowAliases : Bool) (entries : List Entry) (r : Registry) :
    Prop where
  beanPolicy : r.allowBeanOverriding = allowBeans
  aliasPolicy : r.allowAliasOverriding = allowAliases
  beans : r.beans = (entries.filterMap Entry.bean?).foldl
    (MergedSet.addEntry Bean.name allowBeans) []
  aliases : r.aliases = (entries.filterMap Entry.alias?).foldl (addAlias allowAliases) []
  proper : ∀ a ∈ entries.filterMap Entry.alias?, isProper a = true

section Filled

variable {allowBeans allowAliases : Bool} {entries : List Entry}

/-- **One registration.**  An entry that is accepted is added to the tables. -/
theorem FilledBy.register (h : FilledBy allowBeans allowAliases entries r) {e : Entry}
    (ok : r.register e = .ok s) : FilledBy allowBeans allowAliases (entries ++ [e]) s := by
  have result : s = r.orUnchanged (r.register e) := by
    rw [ok]
    rfl
  cases e with
  | bean b =>
    rw [Registry.register, orUnchanged_registerBean] at result
    subst result
    refine ⟨h.beanPolicy, h.aliasPolicy, ?_, ?_, ?_⟩
    · simp [Entry.bean?, h.beanPolicy, h.beans]
    · simp [List.filterMap_cons, Entry.alias?, h.aliases]
    · simpa [List.filterMap_cons, Entry.alias?] using h.proper
  | aliasing a =>
    have new := isProper_of_registerAlias ok
    rw [Registry.register, orUnchanged_registerAlias] at result
    subst result
    refine ⟨h.beanPolicy, h.aliasPolicy, ?_, ?_, ?_⟩
    · simp [List.filterMap_cons, Entry.bean?, h.beans]
    · simp [Entry.alias?, h.aliasPolicy, h.aliases]
    · intro x there
      rw [List.filterMap_append] at there
      rcases List.mem_append.1 there with before | it
      · exact h.proper x before
      · cases List.mem_singleton.1 it
        exact new
  | component c =>
    have result : s = r.registerComponent c := result
    subst result
    refine ⟨h.beanPolicy, h.aliasPolicy, ?_, ?_, ?_⟩
    · simp [List.filterMap_cons, Entry.bean?, registerComponent, h.beans]
    · simp [List.filterMap_cons, Entry.alias?, registerComponent, h.aliases]
    · simpa [List.filterMap_cons, Entry.alias?] using h.proper

/-- A registry that was filled stays so with further entries. -/
theorem FilledBy.take (h : FilledBy allowBeans allowAliases entries r) (es : List Entry) :
    FilledBy allowBeans allowAliases (entries ++ r.accepted es) (r.take es) := by
  induction es generalizing r entries with
  | nil =>
    rw [accepted, List.append_nil]
    exact h
  | cons e es ih =>
    cases answer : r.register e with
    | ok s =>
      have rest := ih (h.register answer)
      simpa [accepted, Registry.take, answer, orUnchanged] using rest
    | error error =>
      have rest := ih h
      simpa [accepted, Registry.take, answer, orUnchanged] using rest

/-- **All calls.**  After calls, the entries that they had accepted are added. -/
theorem FilledBy.run (h : FilledBy allowBeans allowAliases entries r) (calls : List Call) :
    FilledBy allowBeans allowAliases (entries ++ r.acceptedBy calls) (r.run calls) := by
  induction calls generalizing r entries with
  | nil =>
    rw [acceptedBy, List.append_nil]
    exact h
  | cons c calls ih =>
    have first := h.take c.entries
    rw [← after_eq_take] at first
    have rest := ih first
    rwa [List.append_assoc] at rest

end Filled

/-! ## Answers that stay -/

/-- Where a registry may replace nothing, it answers what it answered before. -/
structure Retains (r s : Registry) : Prop where
  beanPolicy : s.allowBeanOverriding = r.allowBeanOverriding
  aliasPolicy : s.allowAliasOverriding = r.allowAliasOverriding
  beans : r.allowBeanOverriding = false → ∀ name b,
    r.toContext.bean? name = some b → s.toContext.bean? name = some b
  aliases : r.allowAliasOverriding = false → ∀ name a,
    r.toContext.aliasOf? name = some a → s.toContext.aliasOf? name = some a

theorem Retains.refl (r : Registry) : r.Retains r :=
  ⟨rfl, rfl, fun _ _ _ there => there, fun _ _ _ there => there⟩

theorem Retains.trans {t : Registry} (first : r.Retains s) (second : s.Retains t) :
    r.Retains t where
  beanPolicy := second.beanPolicy.trans first.beanPolicy
  aliasPolicy := second.aliasPolicy.trans first.aliasPolicy
  beans := fun forbidden name b there =>
    second.beans (first.beanPolicy.trans forbidden) name b (first.beans forbidden name b there)
  aliases := fun forbidden name a there =>
    second.aliases (first.aliasPolicy.trans forbidden) name a
      (first.aliases forbidden name a there)

/-- Registering an entry, or failing to, keeps the answers that may not be replaced. -/
theorem retains_register (r : Registry) (e : Entry) :
    r.Retains (r.orUnchanged (r.register e)) := by
  cases e with
  | bean b =>
    rw [register, orUnchanged_registerBean]
    refine ⟨rfl, rfl, ?_, fun _ _ _ there => there⟩
    intro forbidden name c there
    rw [Context.bean?, toContext] at there ⊢
    dsimp only at there ⊢
    rw [forbidden, MergedSet.get?_addEntry_forbidden, there, Option.some_or]
  | aliasing a =>
    rw [register, orUnchanged_registerAlias]
    refine ⟨rfl, rfl, fun _ _ _ there => there, ?_⟩
    intro forbidden name existing there
    rw [Context.aliasOf?, toContext] at there ⊢
    dsimp only at there ⊢
    rw [forbidden]
    exact get?_addAlias_of_some there
  | component c => exact ⟨rfl, rfl, fun _ _ _ there => there, fun _ _ _ there => there⟩

/-- Taking entries keeps every bean and every alias. -/
theorem retains_take (r : Registry) (es : List Entry) : r.Retains (r.take es) := by
  induction es generalizing r with
  | nil => exact .refl r
  | cons e es ih => exact (retains_register r e).trans (ih _)

/-- Calls keep the answers that may not be replaced. -/
theorem retains_run (r : Registry) (calls : List Call) : r.Retains (r.run calls) := by
  induction calls generalizing r with
  | nil => exact .refl r
  | cons c calls ih =>
    have first := retains_take r c.entries
    rw [← after_eq_take] at first
    exact first.trans (ih _)

/-! ## Refusals -/

/-- What a registry refuses where nothing may be replaced: a bean whose name is taken, and an alias
that leads elsewhere already.  An alias of its own name is always refused. -/
def Refuses (r : Registry) : Entry → Prop
  | .bean b => r.containsBean b.name = true ∧ r.allowBeanOverriding = false
  | .aliasing a => a.name = a.beanName ∨ ∃ existing, r.toContext.aliasOf? a.name = some existing ∧
      existing.beanName ≠ a.beanName ∧ r.allowAliasOverriding = false
  | .component _ => False

/-- An alias is refused exactly if it is its bean's own name, or if its name leads elsewhere and
nothing may be overridden. -/
theorem registerAlias_isError_iff (r : Registry) (a : BeanAlias) :
    (∃ error, r.registerAlias a = .error error) ↔ r.Refuses (.aliasing a) := by
  have refuses : r.Refuses (.aliasing a) ↔ a.name = a.beanName ∨
      ∃ existing, Keyed.get? BeanAlias.name a.name r.aliases = some existing ∧
        existing.beanName ≠ a.beanName ∧ r.allowAliasOverriding = false := Iff.rfl
  rw [refuses]
  unfold registerAlias
  by_cases own : a.name = a.beanName
  · simp [own]
  · cases found : Keyed.get? BeanAlias.name a.name r.aliases with
    | none => simp [own]
    | some existing =>
      by_cases repeated : existing.beanName = a.beanName
      · simp [own, repeated]
      · cases r.allowAliasOverriding <;> simp [own, repeated]

/-- A registration fails exactly if the registry refuses it. -/
theorem register_isError_iff (r : Registry) (e : Entry) :
    (∃ error, r.register e = .error error) ↔ r.Refuses e := by
  cases e with
  | bean b => exact registerBean_isError_iff r b
  | aliasing a => exact registerAlias_isError_iff r a
  | component c =>
    constructor
    · rintro ⟨error, refused⟩
      cases refused
    · exact False.elim

/-- A call returns an error exactly if it is about one entry that is refused.  It then leaves the
registry as it was, and nothing is accepted. -/
theorem perform_isError_iff (r : Registry) (c : Call) :
    (∃ error, r.perform c = .error error) ↔ ∃ e, c = .one e ∧ r.Refuses e := by
  cases c with
  | one e =>
    rw [perform, register_isError_iff]
    constructor
    · exact fun refused => ⟨e, rfl, refused⟩
    · rintro ⟨_, ⟨⟩, refused⟩
      exact refused
  | all ctx => exact ⟨nofun, nofun⟩

/-- A call that fails leaves the registry as it was, and accepts nothing. -/
theorem unchanged_of_error {c : Call} {error : RegistryError}
    (failed : r.perform c = .error error) :
    r.after c = r ∧ r.accepted c.entries = [] := by
  constructor
  · rw [after, failed]
    rfl
  · cases c with
    | one e =>
      have refused : r.register e = .error error := failed
      rw [Call.entries, accepted, refused]
      rfl
    | all ctx => cases failed

/-! ## After calls -/

/-- What a registry answers, given the entries that it has accepted: of the beans of a name, and of
the aliases of a name, the first counts, or the last where later ones may replace it.  Names are
listed once, in the order in which they were first accepted, and no alias leads to itself. -/
structure Keeps (allowBeans allowAliases : Bool) (entries : List Entry) (r : Registry) :
    Prop where
  beans : Keyed.FollowsPolicy allowBeans Bean.name (entries.filterMap Entry.bean?) r.beans
    r.toContext.bean?
  targets : ∀ name, (r.toContext.aliasOf? name).map BeanAlias.beanName
    = (Keyed.kept allowAliases BeanAlias.name name (entries.filterMap Entry.alias?)).map
        BeanAlias.beanName
  aliasNames : r.aliases.map BeanAlias.name
    = Keyed.distinct ((entries.filterMap Entry.alias?).map BeanAlias.name)
  aliases : ∀ a ∈ r.aliases, r.toContext.aliasOf? a.name = some a
  distinct : r.Distinct
  proper : ∀ a ∈ r.aliases, a.name ≠ a.beanName

/-- Tables made of entries answer accordingly. -/
theorem FilledBy.keeps {allowBeans allowAliases : Bool} {entries : List Entry}
    (h : FilledBy allowBeans allowAliases entries r) :
    r.Keeps allowBeans allowAliases entries := by
  have beans : Keyed.FollowsPolicy allowBeans Bean.name (entries.filterMap Entry.bean?) r.beans
      r.toContext.bean? := by
    have find : r.toContext.bean? = fun name => Keyed.get? Bean.name name r.beans := rfl
    rw [find, h.beans]
    exact Keyed.followsPolicy_foldl _ _ _
  have aliasNames : r.aliases.map BeanAlias.name
      = Keyed.distinct ((entries.filterMap Entry.alias?).map BeanAlias.name) := by
    rw [h.aliases, names_foldl_addAlias h.proper]
  have distinct : r.Distinct :=
    ⟨beans.keys ▸ Keyed.nodup_distinct _, aliasNames ▸ Keyed.nodup_distinct _⟩
  refine ⟨beans, ?_, aliasNames, fun a there => distinct.aliasOf?_name there, distinct, ?_⟩
  · intro name
    have target : (r.toContext.aliasOf? name).map BeanAlias.beanName = target? r.aliases name := rfl
    have allProper : (entries.filterMap Entry.alias?).filter isProper
        = entries.filterMap Entry.alias? := List.filter_eq_self.2 h.proper
    rw [target, h.aliases, target?_foldl_addAlias, allProper]
  · intro a there
    rw [h.aliases] at there
    rcases Keyed.mem_or_mem_of_mem_foldl (fun _ _ _ => eq_or_mem_of_mem_addAlias) there with
      added | before
    · simpa [isProper] using h.proper a added
    · cases before

/-- **Calls.**  After any calls, an empty registry answers by the entries that it has accepted;
where nothing may be replaced, further calls change no answer; and a call that returns an error,
which is one about a single entry that is refused, leaves the registry as it was. -/
theorem run_keeps_accepted (name : String) (kind : ContextKind) (allowBeans allowAliases : Bool)
    (calls : List Call) :
    let start : Registry := ⟨name, kind, allowBeans, allowAliases, [], [], []⟩
    (start.run calls).Keeps allowBeans allowAliases (start.acceptedBy calls) ∧
      (∀ later, (start.run calls).Retains (start.run (calls ++ later))) ∧
      ∀ c, ((∃ error, (start.run calls).perform c = .error error) ↔
          ∃ e, c = .one e ∧ (start.run calls).Refuses e) ∧
        ∀ error, (start.run calls).perform c = .error error →
          (start.run calls).after c = start.run calls ∧
            (start.run calls).accepted c.entries = [] := by
  intro start
  have empty : FilledBy allowBeans allowAliases [] start := ⟨rfl, rfl, rfl, rfl, nofun⟩
  refine ⟨(empty.run calls).keeps, ?_, ?_⟩
  · intro later
    have split : start.run (calls ++ later) = (start.run calls).run later := List.foldl_append
    rw [split]
    exact retains_run _ later
  · exact fun c => ⟨perform_isError_iff _ c, fun _ failed => unchanged_of_error failed⟩

/-! ### A clash of names -/

namespace Clash

/-- The bean `x` of a resource. -/
def declare (resource : String) : Bean :=
  .named resource ⟨"x", [], { className := some "Foo", location := .atLine resource 1 }⟩

/-- A bean and an alias, and then a context that declares both again, and one alias more. -/
def calls : List Call :=
  [.one (.bean (declare "a.xml")), .one (.aliasing ⟨"y", "x", .atLine "a.xml" 2⟩),
    .all { name := "b.xml", kind := .config, beans := [declare "b.xml"]
           aliases := [⟨"y", "z", .atLine "b.xml" 2⟩, ⟨"w", "x", .atLine "b.xml" 3⟩] }]

/-- The names are listed in the order in which they came up, the first bean and the first target
count, and another bean `x` is refused. -/
theorem keeps_first_of_clash :
    let r := (Registry.forConfig "a.xml").run calls
    r.aliases.map BeanAlias.name = ["y", "w"] ∧
      (r.toContext.bean? "x").map Bean.resource = some "a.xml" ∧
      (r.toContext.aliasOf? "y").map BeanAlias.beanName = some "x" ∧
      r.perform (.one (.bean (declare "c.xml"))) = .error (.duplicateBean "x" "a.xml") ∧
      r.after (.one (.bean (declare "c.xml"))) = r := by
  intro r
  obtain ⟨keeps, -, refusals⟩ := run_keeps_accepted "a.xml" .config false false calls
  have refused :
      r.perform (.one (.bean (declare "c.xml"))) = .error (.duplicateBean "x" "a.xml") := rfl
  refine ⟨keeps.aliasNames, ?_, keeps.targets "y", refused, ((refusals _).2 _ refused).1⟩
  exact congrArg (Option.map Bean.resource) (keeps.beans.finds "x")

end Clash

end Registry

end BeanWiring
