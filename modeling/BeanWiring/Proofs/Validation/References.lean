/-
# The effect of checking references

The second pass of a validation leaves the roll alone, and warns of a missing name exactly
where a bean that the pass checks mentions it in an argument or a property.  Everything else that
it reports is told apart by its kind: of a kind that none of the other reports has, exactly the
warnings of missing names are added.

Main statements:

* `effect_checkReference` : what is reported of one name;
* `performs_checking` : what is reported of a whole config;
* `performs_referenceTasks`, `performs_aliasTargets` : the same of two codes.
-/
import BeanWiring.Proofs.Validation.Declarations
import BeanWiring.Validation.References

namespace BeanWiring

namespace Validator

open Check

open Diagnostic (Kind)

/-! ## What is to be reported -/

/-- A bean mentions a name in an argument or a property that starts at a line.  What is an
interceptor list is told by the registry. -/
inductive Mentions (v : Validator) (registry : Registry) (x : Bean) (line : Nat)
    (name : String) : Prop
  | argument {index : Option Nat} {a : Argument (Value Bean)}
      (declared : (index, a) ∈ x.arguments) (starts : a.location.startLine = line)
      (named : name ∈ (a.value.namedReferences false).map NamedReference.beanName)
  | property {p : Property (Value Bean)}
      (declared : p ∈ x.properties) (starts : p.location.startLine = line)
      (named : name ∈ (p.value.namedReferences
        (isInterceptorList v.settings.rules registry.toContext x p.name)).map
          NamedReference.beanName)

/-- A name is looked up and not found, and is no reference to a factory. -/
structure Misses (v : Validator) (registry : Registry) (name : String) : Prop where
  counts : v.ignores name = false
  missing : registry.toContext.resolve? name = none
  unmarked : isFactoryReference name = false

/-- The warning that a name a bean mentions at a line is not found. -/
def undefinedReference (x : Bean) (line : Nat) (name : String) : Diagnostic :=
  beanDiagnostic .warning x line "UNDEFINED_REFERENCED_BEAN"
    ("Referenced bean '" ++ name ++ "' not found") (some name)

/-- A marked name is looked up and not found, neither with its mark nor without it. -/
structure MissesFactory (v : Validator) (registry : Registry) (name : String) : Prop where
  counts : v.ignores name = false
  missing : registry.toContext.resolve? name = none
  marked : isFactoryReference name = true
  factory : registry.toContext.resolve? (stripFactoryMark name) = none

/-- The warning that a marked name stands for nothing without its mark. -/
def undefinedFactory (b : Bean) (line : Nat) (name : String) : Diagnostic :=
  (Report.bean b line (.factoryReferenceNotFound (stripFactoryMark name) name)).toDiagnostic

/-- The warning about a name that a bean mentions at a line, if it leads nowhere. -/
inductive Warns (v : Validator) (registry : Registry) (x : Bean) (line : Nat) (name : String) :
    Diagnostic → Prop
  | unmarked (misses : v.Misses registry name) :
      Warns v registry x line name (undefinedReference x line name)
  | marked (misses : v.MissesFactory registry name) :
      Warns v registry x line name (undefinedFactory x line name)

/-- The warning about the target of an alias, if it leads nowhere. -/
def undefinedTarget (a : BeanAlias) : Diagnostic :=
  (Report.aliasing a .targetNotFound).toDiagnostic

/-- The target of an alias is looked up and not found. -/
structure MissesTarget (v : Validator) (registry : Registry) (a : BeanAlias) : Prop where
  counts : v.ignores a.beanName = false
  missing : registry.toContext.resolve? a.beanName = none

/-- The code of these warnings differs from that of everything else in the second pass. -/
theorem Refers.code_ne {v : Validator} {b : Bean} {f : Finding} (refers : v.Refers b f) :
    f.code ≠ "UNDEFINED_REFERENCED_BEAN" :=
  (by decide : ∀ code ∈ lookupCodes, code ≠ "UNDEFINED_REFERENCED_BEAN") f.code refers.code_mem

variable {kind : Kind}

/-! ## Single names -/

section Names

variable (v : Validator) (b : Bean)
  (unfit : ∀ line f, v.Unfits f → ¬kind (Report.bean b line f).toDiagnostic)
include unfit

/-- Without its mark a name is looked up once more, and reported if it stands for nothing. -/
theorem effect_checkFactoryReference (line : Nat) {name : String}
    (counts : v.ignores name = false) :
    Effect kind (v.checkFactoryReference b line name) id (fun r d =>
      r.registry.toContext.resolve? (stripFactoryMark name) = none ∧
        d = undefinedFactory b line name) := by
  refine Effect.context_bind (P := fun ctx _ d =>
    ctx.resolve? (stripFactoryMark name) = none ∧ d = undefinedFactory b line name) fun ctx => ?_
  cases found : ctx.resolve? (stripFactoryMark name) with
  | none =>
    exact (effect_reportAt b line _).congr (fun _ => rfl) (fun _ _ _ => by simp [undefinedFactory])
  | some target =>
    have quiet := (closedLookups_quiet kind).checkFactoryFound v b unfit line counts
      (beanClass ctx target)
    exact Effect.congr quiet (fun _ => rfl) (fun _ _ _ => by simp)

/-- What is made of a name once it has been looked up. -/
theorem effect_checkFound (line : Nat) {name : String} (counts : v.ignores name = false)
    (found : Option Bean) :
    Effect kind (match found with
      | some target => isInvalidTarget target >>= fun invalid =>
        if invalid then reportAt b line (.referenceInvalid name) else pure ()
      | none =>
        if isFactoryReference name then v.checkFactoryReference b line name
        else reportAt b line (.referenceNotFound name)) id
      (fun r d => found = none ∧
        (isFactoryReference name = false ∧ d = undefinedReference b line name ∨
          isFactoryReference name = true ∧
            r.registry.toContext.resolve? (stripFactoryMark name) = none ∧
            d = undefinedFactory b line name)) := by
  cases found with
  | some target =>
    refine Effect.congr ((closedLookups_quiet kind).checkTarget v b unfit line counts trivial)
      (fun _ => rfl) ?_
    intro _ d _
    simp
  | none =>
    cases marked : isFactoryReference name with
    | true =>
      refine (effect_checkFactoryReference v b unfit line counts).congr (fun _ => rfl) ?_
      intro r d _
      simp
    | false =>
      refine (effect_reportAt b line (.referenceNotFound name)).congr (fun _ => rfl) ?_
      intro _ d _
      simp only [true_and, Bool.false_eq_true, false_and, or_false]
      exact .rfl

/-- A name is reported exactly if it is missing. -/
theorem effect_checkReference (line : Nat) (name : String) :
    Effect kind (v.checkReference b line name) id
      (fun r => v.Warns r.registry b line name) := by
  unfold checkReference
  cases counts : v.ignores name with
  | true =>
    refine Effect.congr (quiet_pure ()) (fun _ => rfl) ?_
    intro r d _
    refine iff_of_false id ?_
    rintro (misses | misses)
    · exact absurd misses.counts (by simp [counts])
    · exact absurd misses.counts (by simp [counts])
  | false =>
    have looked := Effect.context_bind fun ctx =>
      effect_checkFound v b unfit line counts (ctx.resolve? name)
    refine looked.congr (fun _ => rfl) ?_
    intro r d _
    constructor
    · rintro ⟨missing, ⟨unmarked, rfl⟩ | ⟨marked, factory, rfl⟩⟩
      · exact .unmarked ⟨counts, missing, unmarked⟩
      · exact .marked ⟨counts, missing, marked, factory⟩
    · rintro (⟨-, missing, unmarked⟩ | ⟨-, missing, marked, factory⟩)
      · exact ⟨missing, .inl ⟨unmarked, rfl⟩⟩
      · exact ⟨missing, .inr ⟨marked, factory, rfl⟩⟩

theorem effect_checkReferences (line : Nat) (references : List NamedReference) :
    Effect kind (v.checkReferences b line references) id
      (fun r d => ∃ n ∈ references, v.Warns r.registry b line n.beanName d) := by
  refine Effect.list (fun n => v.checkReference b line n.beanName) (v.checkReferences b line)
    rfl ?_ ?_ references
  · intro n rest
    rw [checkReferences]
  · intro n
    exact effect_checkReference v b unfit line n.beanName

theorem effect_checkArguments (arguments : List (Option Nat × Argument (Value Bean))) :
    Effect kind (v.checkArguments b arguments) id
      (fun r d => ∃ a ∈ arguments, ∃ n ∈ a.2.value.namedReferences false,
        v.Warns r.registry b a.2.location.startLine n.beanName d) :=
  Effect.list (fun a => v.checkReferences b a.2.location.startLine
    (a.2.value.namedReferences false)) (v.checkArguments b) rfl (fun _ _ => rfl)
    (fun _ => effect_checkReferences v b unfit _ _) arguments

theorem effect_checkPropertyValues (properties : List (Property (Value Bean))) :
    Effect kind (v.checkPropertyValues b properties) id
      (fun r d => ∃ p ∈ properties, ∃ n ∈ p.value.namedReferences
          (isInterceptorList v.settings.rules r.registry.toContext b p.name),
        v.Warns r.registry b p.location.startLine n.beanName d) := by
  refine Effect.list (fun p => context >>= fun ctx =>
    v.checkReferences b p.location.startLine (p.value.namedReferences
      (isInterceptorList v.settings.rules ctx b p.name))) (v.checkPropertyValues b) rfl
    (fun _ _ => rfl) ?_ properties
  intro p run
  exact effect_checkReferences v b unfit _ _ run

end Names

/-! ## Whole beans -/

/-- The second pass reports of a bean exactly the names that it mentions and that are
missing. -/
theorem effect_checkBeanReferences (v : Validator) (b : Bean)
    (others : ∀ line f, v.Refers b f → ¬kind (Report.bean b line f).toDiagnostic)
    (set : Option String) :
    Effect kind (v.checkBeanReferences set b) id
      (fun r d => ∃ line name, v.Mentions r.registry b line name ∧
        v.Warns r.registry b line name d) := by
  have unfit : ∀ line f, v.Unfits f → ¬kind (Report.bean b line f).toDiagnostic :=
    fun line f found => others line f (.unfit found)
  have named : ∀ line f, v.Refers b f → f.isOfMaking = false →
      ¬kind (Report.bean b line f).toDiagnostic := fun line f refers _ => others line f refers
  have parent : Quiet kind (v.checkParent set b) :=
    (closedLookups_quiet kind).checkParent v b named set
  have dependencies : Quiet kind (v.checkDependencies b b.definition.dependsOn) :=
    (closedLookups_quiet kind).checkDependencies v b named _
  have factory := (closedLookups_quiet kind).checkMerged v b others trivial
  have values := (effect_checkArguments v b unfit b.arguments).bind fun _ =>
    (effect_checkPropertyValues v b unfit b.properties).bind fun _ =>
      dependencies.bind_quiet fun _ => factory
  refine Effect.congr (parent.bind fun _ => values) (fun _ => rfl) ?_
  intro r d _
  constructor
  · rintro (⟨⟨index, a⟩, declared, n, named, warns⟩ | ⟨p, declared, n, named, warns⟩ | none)
    · exact ⟨_, _, .argument declared rfl (List.mem_map_of_mem named), warns⟩
    · exact ⟨_, _, .property declared rfl (List.mem_map_of_mem named), warns⟩
    · exact none.elim
  · rintro ⟨line, name, mentions, warns⟩
    cases mentions with
    | argument declared starts named =>
      subst starts
      obtain ⟨n, listed, rfl⟩ := List.mem_map.1 named
      exact .inl ⟨_, declared, n, listed, warns⟩
    | property declared starts named =>
      subst starts
      obtain ⟨n, listed, rfl⟩ := List.mem_map.1 named
      exact .inr (.inl ⟨_, declared, n, listed, warns⟩)

/-- The target of an alias is reported exactly if it is missing. -/
theorem effect_checkAliasTarget (v : Validator) (a : BeanAlias) :
    Effect kind (v.checkAliasTarget a) id
      (fun r d => v.MissesTarget r.registry a ∧ d = undefinedTarget a) := by
  unfold checkAliasTarget
  cases counts : v.ignores a.beanName with
  | true =>
    refine Effect.congr (quiet_pure ()) (fun _ => rfl) ?_
    intro r d _
    refine iff_of_false id ?_
    rintro ⟨misses, -⟩
    exact absurd misses.counts (by simp [counts])
  | false =>
    have looked : Effect kind (context >>= fun ctx =>
        if (ctx.resolve? a.beanName).isNone then reportAlias a .targetNotFound else pure ()) id
        (fun r d => r.registry.toContext.resolve? a.beanName = none ∧ d = undefinedTarget a) := by
      refine Effect.context_bind (P := fun ctx _ d =>
        ctx.resolve? a.beanName = none ∧ d = undefinedTarget a) fun ctx => ?_
      cases ctx.resolve? a.beanName with
      | none =>
        exact (effect_reportAlias a .targetNotFound).congr (fun _ => rfl)
          (fun _ _ _ => by simp [undefinedTarget])
      | some _ => exact Effect.congr (quiet_pure ()) (fun _ => rfl) (fun _ _ _ => by simp)
    refine looked.congr (fun _ => rfl) ?_
    intro r d _
    constructor
    · rintro ⟨missing, same⟩
      exact ⟨⟨counts, missing⟩, same⟩
    · rintro ⟨misses, same⟩
      exact ⟨misses.missing, same⟩

/-! ## The second pass -/

section References

variable (v : Validator) (set : Option String)

theorem effect_referenceTask (skipped : Bool) (x : Bean)
    (others : skipped = false → ∀ line f, v.Refers x f →
      ¬kind (Report.bean x line f).toDiagnostic) :
    Effect kind (v.referenceTask set skipped x) id
      (fun r d => skipped = false ∧ ∃ line name, v.Mentions r.registry x line name ∧
        v.Warns r.registry x line name d) :=
  Effect.unless fun kept => effect_checkBeanReferences v x (others kept) set

/-- The tasks for a bean report what is missing in the beans that they check. -/
theorem performs_beanReferenceTasks {config : Context} {refused : List BeanId} {b : Bean}
    (declared : b ∈ config.beans)
    (others : ∀ x, v.Checks config refused x → ∀ line f, v.Refers x f →
      ¬kind (Report.bean x line f).toDiagnostic) :
    Performs kind (v.beanReferenceTasks set refused b) id
      (fun r d => ∃ x, (b.id ∉ refused ∧ v.skips b = false) ∧
        (x = b ∨ x ∈ b.innerDeep ∧ v.skips x = false) ∧
        ∃ line name, v.Mentions r.registry x line name ∧ v.Warns r.registry x line name d) := by
  unfold beanReferenceTasks
  by_cases left : b.id ∈ refused ∨ v.skips b = true
  · rw [if_pos left]
    refine (Performs.single (effect_referenceTask v set true b nofun)).congr (fun _ => rfl) ?_
    intro r d _
    refine iff_of_false (by simp) ?_
    rintro ⟨x, ⟨accepted, kept⟩, -⟩
    rcases left with left | left
    · exact accepted left
    · exact absurd left (by simp [kept])
  · rw [if_neg left]
    have checked : b.id ∉ refused ∧ v.skips b = false := by simpa using left
    have own := Performs.single (effect_referenceTask v set false b
      fun _ => others b (.own declared checked.1 checked.2))
    have inner := Performs.map b.innerDeep fun x within =>
      effect_referenceTask v set (v.skips x) x fun kept =>
        others x (.inner declared checked.1 checked.2 within kept)
    refine (own.append inner).congr (fun _ => rfl) ?_
    intro r d _
    constructor
    · rintro (⟨-, reported⟩ | ⟨x, within, kept, reported⟩)
      · exact ⟨b, checked, .inl rfl, reported⟩
      · exact ⟨x, checked, .inr ⟨within, kept⟩, reported⟩
    · rintro ⟨x, -, rfl | ⟨within, kept⟩, reported⟩
      · exact .inl ⟨rfl, reported⟩
      · exact .inr ⟨x, within, kept, reported⟩

/-- Of a kind that nothing else in it has, the second pass reports exactly what is missing: in the
beans that it checks, and behind the aliases of the config. -/
theorem performs_checking {config : Context} {refused : List BeanId}
    (others : ∀ x, v.Checks config refused x → ∀ line f, v.Refers x f →
      ¬kind (Report.bean x line f).toDiagnostic) :
    Performs kind (v.referenceTasks set refused config) id (fun r d =>
      (∃ x line name, v.Checks config refused x ∧ v.Mentions r.registry x line name ∧
        v.Warns r.registry x line name d) ∨
      ∃ a ∈ config.aliases, v.MissesTarget r.registry a ∧ d = undefinedTarget a) := by
  have beans := Performs.flatMap config.beans
    fun b hb => performs_beanReferenceTasks v set hb others
  have aliases : Performs kind (config.aliases.map v.checkAliasTarget) id _ :=
    Performs.map config.aliases fun a _ => effect_checkAliasTarget v a
  refine (beans.append aliases).congr (fun _ => rfl) ?_
  intro r d _
  refine or_congr ?_ .rfl
  constructor
  · rintro ⟨b, declared, x, ⟨accepted, kept⟩, place, line, name, reported⟩
    rcases place with rfl | ⟨within, keptItself⟩
    · exact ⟨x, line, name, .own declared accepted kept, reported⟩
    · exact ⟨x, line, name, .inner declared accepted kept within keptItself, reported⟩
  · rintro ⟨x, line, name, checks, reported⟩
    cases checks with
    | own declared accepted kept =>
      exact ⟨x, declared, x, ⟨accepted, kept⟩, .inl rfl, line, name, reported⟩
    | inner declared accepted kept within keptItself =>
      exact ⟨_, declared, x, ⟨accepted, kept⟩, .inr ⟨within, keptItself⟩, line, name, reported⟩

/-- Of a kind that only unmarked references have, it reports exactly those that lead nowhere in the
beans that it checks. -/
theorem performs_unmarked {config : Context} {refused : List BeanId}
    (others : ∀ x, v.Checks config refused x → ∀ line f, v.Refers x f →
      ¬kind (Report.bean x line f).toDiagnostic)
    (marked : ∀ x, v.Checks config refused x → ∀ line name, v.ignores name = false →
      ¬kind (undefinedFactory x line name))
    (targets : ∀ a ∈ config.aliases, v.ignores a.beanName = false → ¬kind (undefinedTarget a)) :
    Performs kind (v.referenceTasks set refused config) id
      (fun r d => ∃ x line name, v.Checks config refused x ∧ v.Mentions r.registry x line name ∧
        v.Misses r.registry name ∧ d = undefinedReference x line name) := by
  refine (performs_checking v set others).congr (fun _ => rfl) ?_
  intro r d hd
  constructor
  · rintro (⟨x, line, name, checks, mentions, warns⟩ | ⟨a, declared, misses, rfl⟩)
    · cases warns with
      | unmarked misses => exact ⟨x, line, name, checks, mentions, misses, rfl⟩
      | marked misses => exact absurd hd (marked x checks line name misses.counts)
    · exact absurd hd (targets a declared misses.counts)
  · rintro ⟨x, line, name, checks, mentions, misses, rfl⟩
    exact .inl ⟨x, line, name, checks, mentions, .unmarked misses⟩

/-- The second pass warns exactly of the unmarked references that lead nowhere in the beans that
it checks. -/
theorem performs_referenceTasks (refused : List BeanId) (config : Context) :
    Performs "UNDEFINED_REFERENCED_BEAN" (v.referenceTasks set refused config) id
      (fun r d => ∃ x line name, v.Checks config refused x ∧ v.Mentions r.registry x line name ∧
        v.Misses r.registry name ∧ d = undefinedReference x line name) := by
  refine performs_unmarked v set (fun x _ line f refers => Kind.not_ofCode refers.code_ne)
    (fun x _ line name _ => Kind.not_ofCode (by simp [Finding.code])) ?_
  intro a _ _ same
  have other : "UNDEFINED_ALIAS_TARGET" = "UNDEFINED_REFERENCED_BEAN" := Option.some.inj same
  exact absurd other (by decide)

/-- And it warns exactly of the aliases of the config that lead nowhere. -/
theorem performs_aliasTargets (refused : List BeanId) (config : Context) :
    Performs "UNDEFINED_ALIAS_TARGET" (v.referenceTasks set refused config) id
      (fun r d => ∃ a ∈ config.aliases, v.MissesTarget r.registry a ∧ d = undefinedTarget a) := by
  have checking : Performs "UNDEFINED_ALIAS_TARGET" (v.referenceTasks set refused config) id _ :=
    performs_checking v set fun x _ line f _ => Kind.not_ofCode f.code_ne_aliasTarget
  refine checking.congr (fun _ => rfl) ?_
  intro r d hd
  refine or_iff_right ?_
  rintro ⟨x, line, name, -, -, warns⟩
  cases warns with
  | unmarked => exact Finding.code_ne_aliasTarget (.referenceNotFound name) (Option.some.inj hd)
  | marked =>
    exact Finding.code_ne_aliasTarget (.factoryReferenceNotFound (stripFactoryMark name) name)
      (Option.some.inj hd)

end References

end Validator

end BeanWiring
