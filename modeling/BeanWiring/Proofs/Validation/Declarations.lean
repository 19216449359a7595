/-
# The effect of checking declarations

The first pass of a validation registers the beans and aliases of a config one after the
other, and notes the beans that the registry refuses.  `Roll.enlistAll` is that part of the
pass on its own: it does without the known types and without reports, and the pass turns
the roll in the same way.

Main statements:

* `performs_enlisting` : the declarations of a config are enlisted, and a report is made of
  each bean that the registry refuses then, and of each definition with a fault;
* `performs_enlisting_quiet` : nothing else is reported than what the first pass can report.
-/
import BeanWiring.Proofs.Validation.Effects
import BeanWiring.Validation.Declarations

namespace BeanWiring

/-! ## Enlisting declarations -/

namespace Roll

/-- Enlists an alias, unless the registry refuses it. -/
def enlistAlias (r : Roll) (a : BeanAlias) : Roll :=
  { r with registry := r.registry.orUnchanged (r.registry.registerAlias a) }

/-- Enlists a bean under its name, or notes that the registry refuses it. -/
def enlistName (r : Roll) (b : Bean) : Roll :=
  match r.registry.registerBean b with
  | .ok registry => { r with registry }
  | .error _ => { r with refused := b.id :: r.refused }

/-- Enlists a bean and its own aliases; an inner bean has no names. -/
def enlist (r : Roll) (b : Bean) : Roll :=
  if b.isInner then r else (Registry.ownAliases b).foldl enlistAlias (r.enlistName b)

/-- Enlists beans and then aliases. -/
def enlistAll (r : Roll) (beans : List Bean) (aliases : List BeanAlias) : Roll :=
  aliases.foldl enlistAlias (beans.foldl enlist r)

/-- The diagnostic is the report that the registry refuses a bean. -/
def Refuses (r : Roll) (set : Option String) (b : Bean) (d : Diagnostic) : Prop :=
  b.isInner = false ∧ ∃ error, r.registry.registerBean b = .error error ∧
    d = (Report.bean b b.startLine (.nameTaken set error)).toDiagnostic

/-- The diagnostic is such a report of one of the beans, made when its turn comes. -/
def RefusesAmong (r : Roll) (set : Option String) (beans : List Bean) (d : Diagnostic) : Prop :=
  ∃ before b after, beans = before ++ b :: after ∧ (before.foldl enlist r).Refuses set b d

end Roll

/-- The report that the definition of a bean has a fault. -/
def invalidDefinition (b : Bean) (fault : DefinitionFault) : Diagnostic :=
  (Report.bean b b.startLine (.invalidDefinition fault)).toDiagnostic

/-- The diagnostic says that the definition of a bean, which has to stand on its own, has a
fault. -/
def Bean.IsFaulty (b : Bean) (d : Diagnostic) : Prop :=
  b.isChild = false ∧ ∃ fault, b.definition.fault? = some fault ∧ d = invalidDefinition b fault

namespace Validator

open Check

open Diagnostic (Kind)

variable {kind : Kind}

/-! ## Names -/

theorem effect_propose (answer : Registry → Except RegistryError Registry)
    {refuse : RegistryError → Check Unit} {rest : Check Unit} {note f : Roll → Roll}
    {P : RegistryError → Diagnostic → Prop}
    (refused : ∀ error, Effect kind (refuse error) note (fun _ => P error))
    (after : Turns kind rest f) :
    Effect kind (propose answer refuse rest) (fun r =>
      f (match answer r.registry with
        | .ok registry => { r with registry }
        | .error _ => note r))
      (fun r d => ∃ error, answer r.registry = .error error ∧ P error d) := by
  intro run
  have rolls : run.roll.registry = run.registry := rfl
  cases reply : answer run.registry with
  | ok registry =>
    simp only [run_propose_of_ok reply, rolls, reply]
    obtain ⟨turned, added⟩ := after { run with registry }
    have nothing : run.AddsOf kind (fun _ => False) (rest.run { run with registry }).2 := added
    exact ⟨turned, nothing.congr fun d _ => by simp⟩
  | error error =>
    simp only [run_propose_of_error reply, rolls, reply]
    obtain ⟨turned, added⟩ := Effect.bind (refused error) (fun _ => after) run
    exact ⟨turned, added.congr fun d _ => by simp⟩

theorem turns_registerDeclaredAlias (a : BeanAlias)
    (refused : ∀ error, ¬kind (Report.aliasing a (.refused error)).toDiagnostic) :
    Turns kind (registerDeclaredAlias a) (·.enlistAlias a) := by
  have quiet : ∀ error, Quiet kind (reportAlias a (.refused error)) :=
    fun error => quiet_reportAlias a (.refused error) (refused error)
  rw [registerDeclaredAlias_eq_propose]
  refine (effect_propose _ quiet (quiet_pure ())).congr ?_ (fun _ _ _ => by simp)
  intro r
  unfold Roll.enlistAlias Registry.orUnchanged
  cases r.registry.registerAlias a <;> rfl

section Registered

variable (b : Bean)
  (aliases : ∀ name error,
    ¬kind (Report.bean b b.startLine (.aliasRefused name error)).toDiagnostic)
include aliases

theorem turns_registerAliases (own : List BeanAlias) :
    Turns kind (registerAliases b own) (own.foldl Roll.enlistAlias ·) := by
  induction own with
  | nil => exact quiet_pure ()
  | cons a rest ih =>
    have refused : ∀ error, Quiet kind (report b (.aliasRefused a.name error)) :=
      fun error => quiet_reportAt b b.startLine (.aliasRefused a.name error) (aliases a.name error)
    refine (effect_propose (·.registerAlias a) refused ih).congr ?_
      (fun _ _ _ => by simp)
    intro r
    show _ = rest.foldl Roll.enlistAlias (r.enlistAlias a)
    unfold Roll.enlistAlias Registry.orUnchanged
    cases r.registry.registerAlias a <;> rfl

/-- A bean and its aliases are enlisted, with a report if the registry refuses the bean. -/
theorem effect_registerBean (set : Option String) :
    Effect kind (registerBean set b)
      (fun r => (Registry.ownAliases b).foldl Roll.enlistAlias (r.enlistName b))
      (fun r d => ∃ error, r.registry.registerBean b = .error error ∧
        d = (Report.bean b b.startLine (.nameTaken set error)).toDiagnostic) := by
  have noted : Turns kind
      (modify fun run => { run with unregistered := b.id :: run.unregistered } : Check Unit)
      (fun r => { r with refused := b.id :: r.refused }) :=
    fun _ => ⟨rfl, .of_eq rfl⟩
  have refused : ∀ error, Effect kind
      (report b (.nameTaken set error) >>= fun _ =>
        modify fun run => { run with unregistered := b.id :: run.unregistered })
      (fun r => { r with refused := b.id :: r.refused })
      (fun _ d => d = (Report.bean b b.startLine (.nameTaken set error)).toDiagnostic) :=
    fun error => (Effect.bind (effect_reportAt b b.startLine (.nameTaken set error))
      fun _ => noted).congr (fun _ => rfl) (fun _ _ _ => by simp)
  exact effect_propose (·.registerBean b) refused
    (turns_registerAliases b aliases (Registry.ownAliases b))

end Registered

/-! ## Definitions -/

section Definitions

variable (v : Validator) (b : Bean)

section Mismatches

variable (mismatches : ∀ line f, Mismatches f → ¬kind (Report.bean b line f).toDiagnostic)
include mismatches

theorem effect_checkRoot :
    Effect kind (v.checkRoot b) id (fun _ d =>
      ∃ fault, b.definition.fault? = some fault ∧ d = invalidDefinition b fault) := by
  have ofClass := (closed_quiet kind).checkDeclaredClass v b mismatches
  unfold checkRoot
  cases b.definition.fault? with
  | some fault =>
    exact ((effect_reportAt b b.startLine (.invalidDefinition fault)).bind fun _ => ofClass).congr
      (fun _ => rfl) (fun _ _ _ => by simp [invalidDefinition])
  | none => exact Effect.congr ofClass (fun _ => rfl) (fun _ _ _ => by simp)

/-- What is checked of a bean once it is registered. -/
theorem effect_checkMade :
    Effect kind (match b.className, b.definition.factoryMethod, b.definition.factoryBean with
      | some className, some method, none =>
        v.checkFactoryMethod b className method true .any >>= fun _ =>
          if !b.isChild then v.checkRoot b else pure ()
      | _, _, _ => if !b.isChild then v.checkRoot b else pure ()) id
      (fun _ => b.IsFaulty) := by
  have root : Effect kind (if !b.isChild then v.checkRoot b else pure ()) id
      (fun _ => b.IsFaulty) := by
    cases child : b.isChild with
    | true => exact Effect.congr (quiet_pure ()) (fun _ => rfl) (by simp [Bean.IsFaulty, child])
    | false =>
      exact (effect_checkRoot v b mismatches).congr (fun _ => rfl)
        (by simp [Bean.IsFaulty, child])
  split
  · refine Quiet.bind ?_ fun _ => root
    exact (closed_quiet kind).checkFactoryMethod v b _ _ true .any
      (fun plain => mismatches _ _ (.factoryClassNotFound plain))
      (fun _ plain => mismatches _ _ (.noFactoryMethod plain))
  · exact root

end Mismatches

/-- A bean is enlisted, unless it is nested, and its definition is checked, unless it is
skipped. -/
theorem effect_checkDeclaration
    (aliases : b.isInner = false → ∀ name error,
      ¬kind (Report.bean b b.startLine (.aliasRefused name error)).toDiagnostic)
    (mismatches : v.skips b = false → ∀ line f, Mismatches f →
      ¬kind (Report.bean b line f).toDiagnostic) (set : Option String) :
    Effect kind (v.checkDeclaration set b) (·.enlist b)
      (fun r d => r.Refuses set b d ∨ v.skips b = false ∧ b.IsFaulty d) := by
  have checks := Effect.unless fun kept : v.skips b = false =>
    effect_checkMade v b (mismatches kept)
  unfold checkDeclaration
  cases inner : b.isInner with
  | true =>
    exact checks.congr (fun r => by simp [Roll.enlist, inner])
      (fun _ _ _ => by simp [Roll.Refuses, inner])
  | false =>
    refine ((effect_registerBean b (aliases inner) set).bind fun _ => checks).congr ?_ ?_
    · intro r
      simp [Roll.enlist, inner]
    · intro r d _
      simp [Roll.Refuses, inner]

end Definitions

/-! ## The pass -/

section Pass

variable (v : Validator) (set : Option String) {config : Context}
  (refused : ∀ a ∈ config.aliases, ∀ error,
    ¬kind (Report.aliasing a (.refused error)).toDiagnostic)
include refused

/-- The declarations of a config are enlisted, and a report is made of each bean that the
registry refuses then, and of each definition with a fault. -/
theorem performs_enlisting
    (aliases : ∀ b ∈ v.checkedBeans config.beans, b.isInner = false → ∀ name error,
      ¬kind (Report.bean b b.startLine (.aliasRefused name error)).toDiagnostic)
    (mismatches : ∀ b ∈ v.checkedBeans config.beans, v.skips b = false → ∀ line f,
      Mismatches f → ¬kind (Report.bean b line f).toDiagnostic) :
    Performs kind (v.declarationTasks set config)
      (·.enlistAll (v.checkedBeans config.beans) config.aliases)
      (fun r d => r.RefusesAmong set (v.checkedBeans config.beans) d ∨
        ∃ b ∈ v.checkedBeans config.beans, v.skips b = false ∧ b.IsFaulty d) := by
  have beans := Performs.map_turning (v.checkedBeans config.beans)
    fun b hb => effect_checkDeclaration v b (aliases b hb) (mismatches b hb) set
  have declared := Performs.map_silent config.aliases
    fun a ha => turns_registerDeclaredAlias a (refused a ha)
  refine (beans.append declared).congr (fun _ => rfl) ?_
  intro r d _
  rw [or_false]
  constructor
  · rintro ⟨before, b, after, split, refuses | faulty⟩
    · exact .inl ⟨before, b, after, split, refuses⟩
    · exact .inr ⟨b, split ▸ List.mem_append_right _ List.mem_cons_self, faulty⟩
  · rintro (⟨before, b, after, split, refuses⟩ | ⟨b, visited, faulty⟩)
    · exact ⟨before, b, after, split, .inl refuses⟩
    · obtain ⟨before, after, split⟩ := List.append_of_mem visited
      exact ⟨before, b, after, split, .inr faulty⟩

/-- If nothing that can be reported on the way is of the kind, then nothing is. -/
theorem performs_enlisting_quiet
    (known : ∀ b ∈ v.checkedBeans config.beans, ∀ line f, v.Declares b f →
      ¬kind (Report.bean b line f).toDiagnostic) :
    Performs kind (v.declarationTasks set config)
      (·.enlistAll (v.checkedBeans config.beans) config.aliases) (fun _ _ => False) := by
  have enlists := performs_enlisting v set refused
    (fun b hb registered name error => known b hb _ _ (.aliasRefused registered name error))
    (fun b hb kept line f found => known b hb line f (.definition kept (.mismatch found)))
  refine enlists.congr (fun _ => rfl) ?_
  intro r d hd
  refine iff_of_false ?_ id
  rintro (⟨_, b, _, split, registered, error, _, rfl⟩ | ⟨b, visited, kept, -, fault, -, rfl⟩)
  · have visited := split ▸ List.mem_append_right _ List.mem_cons_self
    exact known b visited _ _ (.nameTaken registered set error) hd
  · exact known b visited _ _ (.definition kept (.invalid fault)) hd

end Pass

/-! ### By codes -/

section Codes

variable {code : String}

/-- A code that the first pass does not use differs from each that it does. -/
theorem ne_of_not_mem_declarationCodes (unused : code ∉ declarationCodes) {used : String}
    (h : used ∈ declarationCodes) : used ≠ code := by
  rintro rfl
  exact unused h

/-- The declarations of a config are enlisted, and a report is made of each bean that the
registry refuses then. -/
theorem performs_declarations (aliases : "INVALID_BEAN_ALIAS" ≠ code)
    (unused : code ∉ definitionCodes) (v : Validator) (set : Option String) (config : Context) :
    Performs code (v.declarationTasks set config)
      (·.enlistAll (v.checkedBeans config.beans) config.aliases)
      (·.RefusesAmong set (v.checkedBeans config.beans)) := by
  have other : ∀ f, Defines f → f.code ≠ code := by
    rintro f found rfl
    exact unused found.code_mem
  have enlists : Performs code (v.declarationTasks set config) _ _ :=
    performs_enlisting v set (fun a _ error same => aliases (Option.some.inj same))
      (fun b _ _ name error => Kind.not_ofCode aliases)
      (fun b _ _ line f found => Kind.not_ofCode (other f (.mismatch found)))
  refine enlists.congr (fun _ => rfl) ?_
  intro r d hd
  refine or_iff_left ?_
  rintro ⟨b, -, -, -, fault, -, rfl⟩
  exact Kind.not_ofCode (other _ (.invalid fault)) hd

/-- Each report made on the way has one of the codes in `declarationCodes`. -/
theorem performs_declarationTasks (unused : code ∉ declarationCodes) (v : Validator)
    (set : Option String) (config : Context) :
    Performs code (v.declarationTasks set config)
      (·.enlistAll (v.checkedBeans config.beans) config.aliases) (fun _ _ => False) := by
  have aliases : "INVALID_BEAN_ALIAS" ≠ code :=
    ne_of_not_mem_declarationCodes unused (by decide)
  refine performs_enlisting_quiet v set (fun a _ error same => aliases (Option.some.inj same)) ?_
  intro b _ line f declares
  exact Kind.not_ofCode (ne_of_not_mem_declarationCodes unused declares.code_mem)

end Codes

end Validator

end BeanWiring
