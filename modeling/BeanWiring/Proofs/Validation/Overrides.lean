/-
# Overridden beans

Where beans may not be overridden, a pass reports each bean of the validated config whose name
is taken by then.  It asks for the name only: a declaration that is registered a second time, as
its document is imported along two paths or its config is a member of the set twice, is reported
as overriding itself.

Main statement: `overrides_iff`, which reports a pass makes, and that where no declaration is
registered twice these are the beans for which a different declaration comes before.
-/
import BeanWiring.Proofs.Validation.Agreement

namespace BeanWiring

/-! ## Refused beans -/

/-- A registry refuses a bean if its name is taken and nothing may be replaced. -/
theorem Registry.registerBean_eq_error_iff {r : Registry} {b : Bean} {error : RegistryError} :
    r.registerBean b = .error error ↔ r.allowBeanOverriding = false ∧
      ∃ c, Keyed.get? Bean.name b.name r.beans = some c ∧
        error = .duplicateBean b.name c.resource := by
  unfold registerBean
  cases Keyed.get? Bean.name b.name r.beans with
  | none => simp
  | some c =>
    cases r.allowBeanOverriding with
    | true => simp
    | false =>
      simp only [Bool.false_eq_true, if_false, Except.error.injEq, true_and, Option.some.injEq,
        exists_eq_left']
      exact eq_comm

namespace Roll

variable {v : Validator} {config : Context} {r : Roll} {set : Option String} {d : Diagnostic}

theorem refusesAmong_cons {b : Bean} {bs : List Bean} :
    r.RefusesAmong set (b :: bs) d ↔ r.Refuses set b d ∨ (r.enlist b).RefusesAmong set bs d := by
  constructor
  · rintro ⟨before, c, after, split, refused⟩
    cases before with
    | nil =>
      cases split
      exact .inl refused
    | cons _ before =>
      cases split
      exact .inr ⟨before, c, after, rfl, refused⟩
  · rintro (refused | ⟨before, c, after, rfl, refused⟩)
    · exact ⟨[], b, bs, rfl, refused⟩
    · exact ⟨b :: before, c, after, rfl, refused⟩

/-- Inner beans are never refused. -/
theorem refusesAmong_append {below bs : List Bean} (nested : ∀ x ∈ below, x.isInner = true) :
    r.RefusesAmong set (below ++ bs) d ↔ r.RefusesAmong set bs d := by
  induction below with
  | nil => exact .rfl
  | cons x below ih =>
    have inner := nested x List.mem_cons_self
    have same : r.enlist x = r := if_pos inner
    rw [List.cons_append, refusesAmong_cons, same,
      ih fun y hy => nested y (List.mem_cons_of_mem x hy), Refuses, inner]
    simp

/-- Of the beans that the first pass visits, only those that are not nested can be refused. -/
theorem refusesAmong_checkedBeans {bs : List Bean} :
    r.RefusesAmong set (v.checkedBeans bs) d ↔ r.RefusesAmong set bs d := by
  induction bs generalizing r with
  | nil => exact .rfl
  | cons b bs ih =>
    obtain ⟨below, visited, nested⟩ := v.checkedBeans_cons b bs
    rw [visited, refusesAmong_cons, refusesAmong_append nested, ih, ← refusesAmong_cons]

end Roll

namespace Validator

open Check

/-! ## The second part of a pass -/

/-- The second pass adds no diagnostic with a code that it does not use. -/
theorem performs_referenceTasks_quiet {code : String} (unused : code ∉ lookupCodes)
    (other : code ≠ "UNDEFINED_REFERENCED_BEAN") (v : Validator) (set : Option String)
    (refused : List BeanId) (config : Context) :
    Performs code (v.referenceTasks set refused config) id (fun _ _ => False) := by
  have used : ∀ b line f, v.Refers b f ∨ v.Dangles f →
      ¬Diagnostic.Kind.ofCode code (Report.bean b line f).toDiagnostic := by
    intro b line f found same
    have code : f.code = code := Option.some.inj same
    rcases found with refers | dangles
    · exact unused (code ▸ refers.code_mem)
    · rcases dangles.code_eq with undefined | undefined
      · exact other (code.symm.trans undefined)
      · have listed : "UNDEFINED_FACTORY_BEAN" ∈ lookupCodes := by decide
        exact unused (code.symm.trans undefined ▸ listed)
  have aliases : "UNDEFINED_ALIAS_TARGET" ∈ lookupCodes := by decide
  refine .of_quiet ((closedLookups_quiet code).referenceTasks v set refused
    (fun _ _ => ⟨trivial, fun _ _ => trivial⟩) (fun b _ line f found => used b line f found) ?_)
  intro a _ _ same
  exact unused (Option.some.inj same ▸ aliases)

/-! ## The order of registration -/

/-- A pass registers the bean `b` of the validated config after the beans of `before`: those of
the members that come before the config, and those that come before it in the config. -/
def RegistersAfter (config : Context) (set : Option SetView) (before : List Bean) (b : Bean) :
    Prop :=
  ∃ earlier later front back, passMembers set = earlier ++ .self :: later ∧
    config.beans = front ++ b :: back ∧
    before = earlier.flatMap (fun m => (m.context config).beans) ++ front

/-- The beans of all members, in the order in which a pass registers them. -/
def registeredBeans (config : Context) (set : Option SetView) : List Bean :=
  (passMembers set).flatMap fun m => (m.context config).beans

/-- Whether a pass may not override beans: on its own a config never may. -/
def forbidsOverriding : Option SetView → Bool
  | none => true
  | some set => !set.settings.allowBeanOverriding

/-- The report that the bean `b` takes a name that is that of the bean `c`. -/
def overrideReport (set : Option SetView) (b c : Bean) : Diagnostic :=
  (Report.bean b b.startLine
    (.nameTaken (set.map SetView.name) (.duplicateBean b.name c.resource))).toDiagnostic

section Order

variable {v : Validator} {config : Context} {set : Option SetView} {before : List Bean} {b : Bean}

theorem RegistersAfter.mem (h : RegistersAfter config set before b) : b ∈ config.beans := by
  obtain ⟨earlier, later, front, back, -, declared, -⟩ := h
  rw [declared]
  exact List.mem_append_right front List.mem_cons_self

theorem RegistersAfter.registeredBeans_eq (h : RegistersAfter config set before b) :
    ∃ after, registeredBeans config set = before ++ b :: after := by
  obtain ⟨earlier, later, front, back, members, declared, rfl⟩ := h
  refine ⟨back ++ later.flatMap fun m => (m.context config).beans, ?_⟩
  rw [registeredBeans, members, List.flatMap_append, List.flatMap_cons, SetMember.context,
    declared]
  simp only [List.append_assoc, List.cons_append]

/-- When the turn of a bean comes, the registry holds the beans registered before it. -/
theorem registry_enlisted (named : ∀ b ∈ config.beans, b.isInner = false) {members : List SetMember}
    {front back : List Bean} (declared : config.beans = front ++ back) (r : Roll) :
    (front.foldl Roll.enlist (Roll.enlistMembers v config false r members).2).registry
      = front.foldl Registry.registerWithAliases
          ((members.map (·.context config)).foldl Registry.registerAll r.registry) := by
  have first : ∀ b ∈ front, b.isInner = false := fun b hb =>
    named b (declared ▸ List.mem_append_left back hb)
  rw [Roll.registry_foldl_enlist first, (Roll.enlistMembers_eq named false members).2]

/-- Its name is then looked up among those beans. -/
theorem get?_registered (start : Registry) (noBeans : start.beans = []) (declared : List Context)
    (front : List Bean) (name : String) :
    let r := front.foldl Registry.registerWithAliases (declared.foldl Registry.registerAll start)
    r.allowBeanOverriding = start.allowBeanOverriding ∧
      Keyed.get? Bean.name name r.beans = Keyed.kept start.allowBeanOverriding Bean.name name
        (declared.flatMap Context.beans ++ front) := by
  rw [Registry.foldl_registerWithAliases, Registry.registerAll_foldl, noBeans]
  refine ⟨rfl, ?_⟩
  rw [← Keyed.get?_foldl_addEntry, List.foldl_append]

theorem startRegistry_beans (config : Context) (set : Option SetView) :
    (startRegistry config set).beans = [] := by
  cases set <;> rfl

theorem startRegistry_allowBeanOverriding (config : Context) (set : Option SetView) :
    (startRegistry config set).allowBeanOverriding = !forbidsOverriding set := by
  cases set with
  | none => rfl
  | some set => exact (Bool.not_not _).symm

/-- A bean is refused in its turn if overriding is forbidden and a bean with its name was
registered before. -/
theorem refuses_enlisted_iff (named : ∀ b ∈ config.beans, b.isInner = false)
    {members : List SetMember} {front back : List Bean}
    (declared : config.beans = front ++ b :: back) {d : Diagnostic} :
    (front.foldl Roll.enlist (Roll.enlistMembers v config false
        { registry := startRegistry config set } members).2).Refuses (set.map SetView.name) b d ↔
      forbidsOverriding set = true ∧ ∃ c, Keyed.get? Bean.name b.name
          (members.flatMap (fun m => (m.context config).beans) ++ front) = some c ∧
        d = overrideReport set b c := by
  have turn : b.isInner = false :=
    named b (declared ▸ List.mem_append_right front List.mem_cons_self)
  obtain ⟨allowed, found⟩ := get?_registered (startRegistry config set)
    (startRegistry_beans config set) (members.map (·.context config)) front b.name
  rw [startRegistry_allowBeanOverriding] at allowed found
  rw [Roll.Refuses, registry_enlisted named declared]
  simp only [Registry.registerBean_eq_error_iff, allowed, found, turn, true_and, List.flatMap_map]
  cases forbidden : forbidsOverriding set with
  | false => simp
  | true =>
    rw [Bool.not_true, Keyed.kept_false]
    constructor
    · rintro ⟨_, ⟨-, c, before, rfl⟩, rfl⟩
      exact ⟨rfl, c, before, rfl⟩
    · rintro ⟨-, c, before, rfl⟩
      exact ⟨_, ⟨rfl, c, before, rfl⟩, rfl⟩

/-- What the declarations of the config add in their turn. -/
theorem addsInTurn_refusesAmong_iff (named : ∀ b ∈ config.beans, b.isInner = false)
    {d : Diagnostic} :
    AddsInTurn v config (fun set r => r.RefusesAmong set (v.checkedBeans config.beans))
        (set.map SetView.name) { registry := startRegistry config set } (passMembers set) d ↔
      forbidsOverriding set = true ∧ ∃ before b c, RegistersAfter config set before b ∧
        Keyed.get? Bean.name b.name before = some c ∧ d = overrideReport set b c := by
  simp only [AddsInTurn, Roll.refusesAmong_checkedBeans]
  constructor
  · rintro ⟨earlier, later, members, front, b, back, declared, refused⟩
    obtain ⟨forbidden, c, taken, rfl⟩ := (refuses_enlisted_iff named declared).1 refused
    exact ⟨forbidden, _, b, c, ⟨earlier, later, front, back, members, declared, rfl⟩, taken, rfl⟩
  · rintro ⟨forbidden, _, b, c, ⟨earlier, later, front, back, members, declared, rfl⟩, taken, rfl⟩
    exact ⟨earlier, later, members, front, b, back, declared,
      (refuses_enlisted_iff named declared).2 ⟨forbidden, c, taken, rfl⟩⟩

end Order

/-! ## Beans registered once -/

section Once

variable {config : Context} {set : Option SetView} {b b' c c' : Bean} {before before' : List Bean}

/-- A report names the bean that it is about. -/
theorem id_eq_of_overrideReport_eq (top : b.IsTopLevel) (top' : b'.IsTopLevel)
    (same : overrideReport set b c = overrideReport set b' c') : b.id = b'.id := by
  obtain ⟨resource, d, rfl⟩ := top
  obtain ⟨resource', d', rfl⟩ := top'
  have resources : resource = resource' := congrArg Diagnostic.resource same
  have names : some d.name = some d'.name := congrArg Diagnostic.bean same
  show BeanId.named resource d.name = BeanId.named resource' d'.name
  rw [resources, Option.some.inj names]

/-- The turn of a bean that is registered once comes once. -/
theorem RegistersAfter.unique (h : RegistersAfter config set before b)
    (h' : RegistersAfter config set before' b') (same : b.id = b'.id)
    (once : ((registeredBeans config set).map Bean.id).count b.id = 1) :
    before = before' ∧ b = b' ∧ b.id ∉ before.map Bean.id := by
  obtain ⟨after, split⟩ := h.registeredBeans_eq
  obtain ⟨after', split'⟩ := h'.registeredBeans_eq
  have alone : b.id ∉ before.map Bean.id ∧ b.id ∉ after.map Bean.id := by
    rw [split, List.map_append, List.map_cons, List.count_append, List.count_cons_self] at once
    exact ⟨List.count_eq_zero.1 (by omega), List.count_eq_zero.1 (by omega)⟩
  have ids : before.map Bean.id ++ b.id :: after.map Bean.id
      = before'.map Bean.id ++ b.id :: after'.map Bean.id := by
    simpa [same] using congrArg (List.map Bean.id) (split.symm.trans split')
  have lengths : before'.length = before.length := by
    obtain ⟨front, -, -⟩ := (List.append_cons_inj_of_notMem alone.1 alone.2).1 ids
    simpa using (congrArg List.length front).symm
  obtain ⟨front, rest⟩ := List.append_inj (split'.symm.trans split) lengths
  exact ⟨front.symm, (List.cons.inj rest).1.symm, alone.1⟩

end Once

/-- **Overridden beans.**  A pass that is never cancelled comes to its end, and every pass that
does has reported exactly the beans whose name is that of a bean registered before, if overriding
is forbidden, and none otherwise.  A bean that is registered once is reported exactly if a
different declaration of its name comes before it. -/
theorem overrides_iff (v : Validator) (config : Context) (named : ∀ b ∈ config.beans, b.IsTopLevel)
    (set : Option SetView) (run : Run) :
    (∃ run', v.pass (fun _ _ => false) config set run = .ok run') ∧
    ∀ (interrupt : Interrupt) (run' : Run), v.pass interrupt config set run = .ok run' →
      ∃ emitted, run'.diagnostics.toList = run.diagnostics.toList ++ emitted ∧
        (∀ d, (d ∈ emitted ∧ d.code = some "BEAN_OVERRIDE") ↔
          forbidsOverriding set = true ∧ ∃ before b c, RegistersAfter config set before b ∧
            Keyed.get? Bean.name b.name before = some c ∧ d = overrideReport set b c) ∧
        ∀ before b, RegistersAfter config set before b →
          ((registeredBeans config set).map Bean.id).count b.id = 1 →
          ((∃ c, overrideReport set b c ∈ emitted) ↔
            forbidsOverriding set = true ∧ ∃ c ∈ before, c.name = b.name ∧ c.id ≠ b.id) := by
  refine ⟨pass_completes v config set run, ?_⟩
  intro interrupt run' done
  have outer : ∀ b ∈ config.beans, b.isInner = false := fun b hb => (named b hb).isInner
  have first : ∀ set, Performs "BEAN_OVERRIDE" (v.declarationTasks set config)
      (·.enlistAll (v.checkedBeans config.beans) config.aliases)
      (·.RefusesAmong set (v.checkedBeans config.beans)) :=
    fun set => performs_declarations (by decide) (by decide) v set config
  obtain ⟨-, emitted, appended, exact⟩ := pass_adds first
    (fun set refused => performs_referenceTasks_quiet (by decide) (by decide) v set refused config)
    done
  have reports : ∀ d, (d ∈ emitted ∧ d.code = some "BEAN_OVERRIDE") ↔
      forbidsOverriding set = true ∧ ∃ before b c, RegistersAfter config set before b ∧
        Keyed.get? Bean.name b.name before = some c ∧ d = overrideReport set b c := by
    intro d
    rw [← addsInTurn_refusesAmong_iff (v := v) outer]
    constructor
    · rintro ⟨added, code⟩
      exact ((exact d code).1 added).resolve_right (by simp)
    · intro turn
      have code : d.code = some "BEAN_OVERRIDE" := by
        obtain ⟨-, _, _, _, -, -, rfl⟩ := (addsInTurn_refusesAmong_iff outer).1 turn
        rfl
      exact ⟨(exact d code).2 (.inl turn), code⟩
  refine ⟨emitted, appended, reports, ?_⟩
  intro before b turn once
  constructor
  · rintro ⟨c, reported⟩
    obtain ⟨forbidden, before', b', c', turn', taken, same⟩ := (reports _).1 ⟨reported, rfl⟩
    have ids := id_eq_of_overrideReport_eq (named b turn.mem) (named b' turn'.mem) same
    obtain ⟨rfl, rfl, absent⟩ := turn.unique turn' ids once
    have there : c' ∈ before := List.mem_of_find?_eq_some taken
    have name : c'.name = b.name := by simpa using List.find?_some taken
    exact ⟨forbidden, c', there, name, fun e => absent (e ▸ List.mem_map_of_mem there)⟩
  · rintro ⟨forbidden, c, there, name, -⟩
    obtain ⟨c', taken⟩ := Keyed.exists_kept false there name
    rw [Keyed.kept_false] at taken
    exact ⟨c', ((reports _).2 ⟨forbidden, before, b, c', turn, taken, rfl⟩).1⟩

/-! ### A document that is imported along two paths -/

namespace Diamond

/-- A bean `x` of a document. -/
def bean (resource : String) : Bean :=
  .named resource ⟨"x", [], { className := some "Foo", location := .atLine resource 1 }⟩

/-- A config with some beans and imports. -/
def config (name : String) (beans : List Bean) (imports : List ConfigTree) : ConfigTree :=
  ⟨name, { beans, imports := imports.map fun t => ⟨t.name, .atLine name 1, some t⟩ }⟩

/-- A config that declares the bean. -/
def shared : ConfigTree := config "d.xml" [bean "d.xml"] []

/-- A config that comes to the bean by two of its imports. -/
def twice : ConfigTree :=
  config "a.xml" [] [config "b.xml" [] [shared], config "c.xml" [] [shared]]

/-- A config that imports the bean and declares another one with its name. -/
def overlapping : ConfigTree := config "a.xml" [bean "a.xml"] [shared]

theorem beans_twice : twice.toContext.beans = [bean "d.xml", bean "d.xml"] := rfl

theorem beans_overlapping : overlapping.toContext.beans = [bean "a.xml", bean "d.xml"] := rfl

/-- In the one config the bean is reported as overriding itself, in the other one as overriding
another declaration. -/
theorem reported_overriding_itself :
    (∃ run', ({} : Validator).pass (fun _ _ => false) twice.toContext none {} = .ok run' ∧
      overrideReport none (bean "d.xml") (bean "d.xml") ∈ run'.diagnostics ∧
      ∀ c ∈ registeredBeans twice.toContext none, c.id = (bean "d.xml").id) ∧
    ∃ run', ({} : Validator).pass (fun _ _ => false) overlapping.toContext none {} = .ok run' ∧
      ∃ c, overrideReport none (bean "d.xml") c ∈ run'.diagnostics := by
  have named : ∀ resource, (bean resource).IsTopLevel := fun resource => ⟨resource, _, rfl⟩
  constructor
  · obtain ⟨⟨run', done⟩, all⟩ := overrides_iff {} twice.toContext
      (by rw [beans_twice]; simp [named]) none {}
    obtain ⟨emitted, appended, reports, -⟩ := all _ run' done
    have turn : RegistersAfter twice.toContext none [bean "d.xml"] (bean "d.xml") :=
      ⟨[], [], [bean "d.xml"], [], rfl, beans_twice, rfl⟩
    refine ⟨run', done, ?_, ?_⟩
    · rw [← Array.mem_toList_iff, appended]
      exact List.mem_append_right _ ((reports _).2 ⟨rfl, _, _, _, turn, rfl, rfl⟩).1
    · intro c hc
      have there : c ∈ [bean "d.xml", bean "d.xml"] := hc
      cases (by simpa using there : c = bean "d.xml")
      rfl
  · obtain ⟨⟨run', done⟩, all⟩ := overrides_iff {} overlapping.toContext
      (by rw [beans_overlapping]; simp [named]) none {}
    obtain ⟨emitted, appended, -, once⟩ := all _ run' done
    have turn : RegistersAfter overlapping.toContext none [bean "a.xml"] (bean "d.xml") :=
      ⟨[], [], [bean "a.xml"], [], rfl, beans_overlapping, rfl⟩
    obtain ⟨c, reported⟩ := (once _ _ turn (by decide)).2
      ⟨rfl, bean "a.xml", List.mem_singleton_self _, rfl, by decide⟩
    refine ⟨run', done, c, ?_⟩
    rw [← Array.mem_toList_iff, appended]
    exact List.mem_append_right _ reported

end Diamond

end Validator

end BeanWiring
