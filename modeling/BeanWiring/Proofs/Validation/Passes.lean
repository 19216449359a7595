/-
# Passes

A pass validates a config within a set, or on its own.  The roll that it ends with depends
on the config and the set alone: `Validator.finalRoll` goes through the members of the set
and enlists what each of them declares.

Main statements:

* `pass_completes` and `validate_completes` : a pass or a validation that is never cancelled comes
  to its end;
* `pass_parts` : the two parts of a pass;
* `pass_adds` : what a pass has done at its end, given what its two parts do;
* `pass_ok` : the same of diagnostics that the first part does not make.
-/
import BeanWiring.Proofs.Validation.Declarations
import BeanWiring.Validation.Basic

namespace BeanWiring

/-- Whether a member of a set is the validated config. -/
def SetMember.isSelf : SetMember → Bool
  | .self => true
  | .other _ => false

/-! ## Enlisting configs -/

namespace Roll

/-- Enlists the declarations of the config that is validated. -/
def enlistConfig (v : Validator) (config : Context) (r : Roll) : Roll :=
  let r := r.enlistAll (v.checkedBeans config.beans) config.aliases
  { r with registry := config.components.foldl Registry.registerComponent r.registry }

/-- Enlists the members of a set; the flag tells whether the validated config was met. -/
def enlistMembers (v : Validator) (config : Context) (met : Bool) (r : Roll) :
    List SetMember → Bool × Roll
  | [] => (met, r)
  | .self :: rest => enlistMembers v config true (r.enlistConfig v config) rest
  | .other member :: rest =>
    enlistMembers v config met { r with registry := r.registry.registerAll member } rest

/-- The flag is raised once the config is met. -/
theorem fst_enlistMembers (v : Validator) (config : Context) (met : Bool) (r : Roll)
    (members : List SetMember) :
    (enlistMembers v config met r members).1 = (met || members.any SetMember.isSelf) := by
  induction members generalizing met r with
  | nil => exact (Bool.or_false met).symm
  | cons member rest ih =>
    cases member with
    | self => rw [enlistMembers, ih, List.any_cons, SetMember.isSelf, Bool.true_or, Bool.or_true]
    | other member => rw [enlistMembers, ih, List.any_cons, SetMember.isSelf, Bool.false_or]

end Roll

namespace Validator

/-- The empty registry that a pass within a set starts with. -/
def setRegistry (set : SetView) : Registry :=
  .forConfigSet set.name set.settings.allowBeanOverriding set.settings.allowAliasOverriding

/-- The roll at the end of a pass over a config, within a set or on its own.  A config that
is no member of the set comes last. -/
def finalRoll (v : Validator) (config : Context) : Option SetView → Roll
  | none => Roll.enlistConfig v config { registry := .forConfig config.name }
  | some set =>
    let found := Roll.enlistMembers v config false { registry := setRegistry set } set.members
    if found.1 then found.2 else found.2.enlistConfig v config

/-- Members with the validated config, which comes last if it is not among them. -/
def withConfig (members : List SetMember) : List SetMember :=
  if members.any SetMember.isSelf then members else members ++ [.self]

/-- The members that a pass registers, in order: on its own a config is the only one. -/
def passMembers : Option SetView → List SetMember
  | none => [.self]
  | some set => withConfig set.members

/-- The config has its turn in every pass. -/
theorem self_mem_passMembers (set : Option SetView) : .self ∈ passMembers set := by
  cases set with
  | none => exact List.mem_singleton_self _
  | some set =>
    rw [passMembers, withConfig]
    split
    · rename_i met
      obtain ⟨member, there, isSelf⟩ := List.any_eq_true.1 met
      cases member with
      | self => exact there
      | other => cases isSelf
    · exact List.mem_append_right _ (List.mem_singleton_self _)

/-- The empty registry that a pass starts with. -/
def startRegistry (config : Context) : Option SetView → Registry
  | none => .forConfig config.name
  | some set => setRegistry set

/-- A pass over a config, within a set or on its own. -/
def pass (v : Validator) (interrupt : Interrupt) (config : Context) :
    Option SetView → Run → Except Run Run
  | none => v.ownPass interrupt config
  | some set => v.setPass interrupt config set

/-- Whether a pass checks references: not within an incomplete set. -/
def checksReferences : Option SetView → Bool
  | none => true
  | some set => !set.settings.isIncomplete

/-- The parts of a pass within a set. -/
theorem setPass_ok_iff {v : Validator} {interrupt : Interrupt} {config : Context}
    {set : SetView} {run run' : Run} :
    v.setPass interrupt config set run = .ok run' ↔
      ∃ started met members declared, perform interrupt run [pure ()] = .ok started ∧
        v.memberPasses interrupt set.name config false
          (startPass (setRegistry set) (noteRead started)) set.members = .ok (met, members) ∧
        (if met then .ok members else
          v.declarationPass interrupt (some set.name) config members) = .ok declared ∧
        (if set.settings.isIncomplete then .ok declared else
          v.referencePass interrupt (some set.name) config declared) = .ok run' := by
  constructor
  · intro done
    obtain ⟨started, start, done⟩ := bind_eq_ok.1 done
    obtain ⟨⟨met, members⟩, enlist, done⟩ := bind_eq_ok.1 done
    cases met with
    | true => exact ⟨started, true, members, members, start, enlist, rfl, done⟩
    | false =>
      obtain ⟨declared, last, done⟩ := bind_eq_ok.1 done
      exact ⟨started, false, members, declared, start, enlist, last, done⟩
  · rintro ⟨started, met, members, declared, start, enlist, last, done⟩
    refine bind_eq_ok.2 ⟨started, start, bind_eq_ok.2 ⟨(met, members), enlist, ?_⟩⟩
    cases met with
    | true =>
      cases Except.ok.inj last
      exact done
    | false => exact bind_eq_ok.2 ⟨declared, last, done⟩

/-- The parts of a validation. -/
theorem run_eq_ok {v : Validator} {interrupt : Interrupt} {problems : List Diagnostic}
    {config : Context} {sets : List SetView} {run' : Run} :
    v.run interrupt problems config sets = .ok run' ↔
      ∃ start, perform interrupt {} [pure ()] = .ok start ∧
        (if sets.isEmpty then
          v.ownPass interrupt config (noteRead { start with diagnostics := problems.toArray })
        else
          v.setPasses interrupt config (noteRead { start with diagnostics := problems.toArray })
            sets) = .ok run' :=
  bind_eq_ok

/-! ## Passes that are never cancelled -/

section Completes

variable (v : Validator) (config : Context)

theorem declarationPass_completes (set : Option String) (run : Run) :
    ∃ run', v.declarationPass (fun _ _ => false) set config run = .ok run' := by
  obtain ⟨run', done⟩ := perform_completes run (v.declarationTasks set config)
  exact ⟨_, bind_eq_ok.2 ⟨run', done, rfl⟩⟩

theorem memberPasses_completes (set : String) (members : List SetMember) (met : Bool)
    (run : Run) :
    ∃ met' run', v.memberPasses (fun _ _ => false) set config met run members
      = .ok (met', run') := by
  induction members generalizing met run with
  | nil => exact ⟨met, run, rfl⟩
  | cons member rest ih =>
    cases member with
    | self =>
      obtain ⟨run', done⟩ := declarationPass_completes v config (some set) (noteRead run)
      obtain ⟨met', run'', done'⟩ := ih true run'
      exact ⟨met', run'', bind_eq_ok.2 ⟨run', done, done'⟩⟩
    | other member => exact ih met _

/-- A pass that is never cancelled comes to its end. -/
theorem pass_completes (set : Option SetView) (run : Run) :
    ∃ run', v.pass (fun _ _ => false) config set run = .ok run' := by
  cases set with
  | none =>
    obtain ⟨declared, done⟩ := declarationPass_completes v config none
      (startPass (.forConfig config.name) run)
    obtain ⟨run', done'⟩ := perform_completes declared
      (v.referenceTasks none declared.unregistered config)
    exact ⟨run', bind_eq_ok.2 ⟨declared, done, done'⟩⟩
  | some set =>
    obtain ⟨started, start⟩ := perform_completes run [pure ()]
    obtain ⟨met, members, enlist⟩ := memberPasses_completes v config set.name set.members false
      (startPass (setRegistry set) (noteRead started))
    have declares : ∃ declared, (if met then .ok members else
        v.declarationPass (fun _ _ => false) (some set.name) config members) = .ok declared := by
      cases met with
      | true => exact ⟨members, rfl⟩
      | false => exact declarationPass_completes v config (some set.name) members
    obtain ⟨declared, last⟩ := declares
    have finishes : ∃ run', (if set.settings.isIncomplete then .ok declared else
        v.referencePass (fun _ _ => false) (some set.name) config declared) = .ok run' := by
      cases set.settings.isIncomplete with
      | true => exact ⟨declared, rfl⟩
      | false => exact perform_completes declared _
    obtain ⟨run', done⟩ := finishes
    exact ⟨run', setPass_ok_iff.2 ⟨started, met, members, declared, start, enlist, last, done⟩⟩

theorem setPasses_completes (run : Run) (sets : List SetView) :
    ∃ run', v.setPasses (fun _ _ => false) config run sets = .ok run' := by
  induction sets generalizing run with
  | nil => exact ⟨run, rfl⟩
  | cons set rest ih =>
    obtain ⟨after, here⟩ := pass_completes v config (some set) run
    obtain ⟨run', others⟩ := ih after
    exact ⟨run', bind_eq_ok.2 ⟨after, here, others⟩⟩

/-- A validation that is never cancelled has diagnostics. -/
theorem validate_completes (problems : List Diagnostic) (sets : List SetView) :
    ∃ ds, v.validate (fun _ _ => false) problems config sets = some ds := by
  obtain ⟨start, started⟩ := perform_completes {} [pure ()]
  have finishes : ∃ run', (if sets.isEmpty then
        v.ownPass (fun _ _ => false) config
          (noteRead { start with diagnostics := problems.toArray })
      else
        v.setPasses (fun _ _ => false) config
          (noteRead { start with diagnostics := problems.toArray }) sets) = .ok run' := by
    split
    · exact pass_completes v config none _
    · exact setPasses_completes v config _ sets
  obtain ⟨run', rest⟩ := finishes
  exact ⟨_, congrArg findings (run_eq_ok.2 ⟨start, started, rest⟩)⟩

end Completes

/-! ## What a pass has done -/

section Done

open Diagnostic (Kind)

variable {v : Validator} {config : Context} {interrupt : Interrupt} {kind : Kind}

/-- What is added when the config has its turn, given what its declarations add. -/
def AddsInTurn (v : Validator) (config : Context)
    (P : Option String → Roll → Diagnostic → Prop) (set : Option String) (r : Roll)
    (members : List SetMember) (d : Diagnostic) : Prop :=
  ∃ before after, members = before ++ .self :: after ∧
    P set (Roll.enlistMembers v config false r before).2 d

/-- The roll does not depend on the flag. -/
theorem snd_enlistMembers_met (met : Bool) (r : Roll) (members : List SetMember) :
    (Roll.enlistMembers v config met r members).2
      = (Roll.enlistMembers v config false r members).2 := by
  induction members generalizing met r with
  | nil => rfl
  | cons member rest ih =>
    cases member with
    | self => rfl
    | other member => exact ih met _

section First

variable {P : Option String → Roll → Diagnostic → Prop}
  (first : ∀ set, Performs kind (v.declarationTasks set config)
    (·.enlistAll (v.checkedBeans config.beans) config.aliases) (P set))
include first

theorem declarationPass_adds {set : Option String} {run run' : Run}
    (done : v.declarationPass interrupt set config run = .ok run') :
    run'.roll = run.roll.enlistConfig v config ∧ run.AddsOf kind (P set run.roll) run' := by
  obtain ⟨declared, tasks, finish⟩ := bind_eq_ok.1 done
  cases Except.ok.inj finish
  obtain ⟨rolls, added⟩ := first set interrupt run declared tasks
  refine ⟨?_, added⟩
  show { declared.roll with
    registry := config.components.foldl Registry.registerComponent declared.roll.registry } = _
  rw [rolls]
  rfl

theorem memberPasses_adds {set : String} {members : List SetMember} {met met' : Bool}
    {run run' : Run}
    (done : v.memberPasses interrupt set config met run members = .ok (met', run')) :
    (met', run'.roll) = Roll.enlistMembers v config met run.roll members ∧
      run.AddsOf kind (AddsInTurn v config P (some set) run.roll members) run' := by
  induction members generalizing met run with
  | nil =>
    cases Except.ok.inj done
    exact ⟨rfl, (Run.AddsOf.of_eq rfl).congr fun _ _ => by simp [AddsInTurn]⟩
  | cons member rest ih =>
    cases member with
    | self =>
      obtain ⟨declared, here, others⟩ := bind_eq_ok.1 done
      obtain ⟨rolls, added⟩ := declarationPass_adds first here
      obtain ⟨rolls', added'⟩ := ih others
      rw [rolls] at rolls' added'
      have now : run.AddsOf kind (P (some set) run.roll) declared := added
      refine ⟨rolls', (now.trans added').congr fun d _ => ?_⟩
      constructor
      · rintro (here | ⟨before, after, rfl, later⟩)
        · exact ⟨[], rest, rfl, here⟩
        · refine ⟨.self :: before, after, rfl, ?_⟩
          rwa [Roll.enlistMembers, snd_enlistMembers_met]
      · rintro ⟨before, after, split, added⟩
        cases before with
        | nil => exact .inl added
        | cons member before =>
          cases split
          rw [Roll.enlistMembers, snd_enlistMembers_met] at added
          exact .inr ⟨before, after, rfl, added⟩
    | other member =>
      obtain ⟨rolls, added⟩ := ih done
      have since : run.AddsOf kind (AddsInTurn v config P (some set)
          { run.roll with registry := run.registry.registerAll member } rest) run' := added
      refine ⟨rolls, since.congr fun d _ => ?_⟩
      constructor
      · rintro ⟨before, after, rfl, later⟩
        exact ⟨.other member :: before, after, rfl, later⟩
      · rintro ⟨before, after, split, later⟩
        cases before with
        | nil => cases split
        | cons member before =>
          cases split
          exact ⟨before, after, rfl, later⟩

/-- After the members of a set, the config has been enlisted: as one of them, or at the end. -/
theorem lastPass_adds {set : SetView} {met : Bool} {members declared : Run}
    (rolls : (met, members.roll)
      = Roll.enlistMembers v config false { registry := setRegistry set } set.members)
    (last : (if met then .ok members else
      v.declarationPass interrupt (some set.name) config members) = .ok declared) :
    declared.roll = v.finalRoll config (some set) ∧
      members.AddsOf kind (fun d => met = false ∧ P (some set.name) members.roll d) declared := by
  have final : v.finalRoll config (some set)
      = if met then members.roll else members.roll.enlistConfig v config := by
    rw [finalRoll, ← rolls]
  rw [final]
  cases met with
  | true =>
    cases Except.ok.inj last
    exact ⟨rfl, (Run.AddsOf.of_eq rfl).congr fun _ _ => by simp⟩
  | false =>
    obtain ⟨rolls, added⟩ := declarationPass_adds first last
    exact ⟨rolls, added.congr fun _ _ => by simp⟩

end First

theorem referencePass_ok {Q : List BeanId → Roll → Diagnostic → Prop} {set : Option String}
    (second : ∀ refused, Performs kind (v.referenceTasks set refused config) id (Q refused))
    {declared run' : Run} (done : v.referencePass interrupt set config declared = .ok run') :
    run'.roll = declared.roll ∧ declared.AddsOf kind (Q run'.roll.refused run'.roll) run' := by
  obtain ⟨rolls, added⟩ := second declared.unregistered interrupt declared run' done
  have same : run'.roll = declared.roll := rolls
  rw [same]
  exact ⟨rfl, added⟩

/-- The config has its turn among the members of a set, or after them. -/
theorem addsInTurn_withConfig_iff {P : Option String → Roll → Diagnostic → Prop}
    {set : Option String} {r : Roll} {members : List SetMember} {d : Diagnostic} :
    AddsInTurn v config P set r (withConfig members) d ↔
      AddsInTurn v config P set r members d ∨
        members.any SetMember.isSelf = false ∧
          P set (Roll.enlistMembers v config false r members).2 d := by
  by_cases met : members.any SetMember.isSelf = true
  · rw [withConfig, if_pos met, met]
    simp
  · have absent : ∀ before after, members ≠ before ++ .self :: after := by
      rintro before after rfl
      exact met (by simp [SetMember.isSelf])
    rw [withConfig, if_neg met]
    constructor
    · rintro ⟨before, after, split, added⟩
      rcases List.eq_nil_or_concat after with rfl | ⟨rest, last, rfl⟩
      · obtain ⟨rfl, -⟩ := List.append_inj' split rfl
        exact .inr ⟨by simpa using met, added⟩
      · -- Then the config would be met before the end.
        rw [List.concat_eq_append, ← List.cons_append, ← List.append_assoc] at split
        exact absurd (List.append_inj' split rfl).1 (absent _ _)
    · rintro (⟨before, after, split, -⟩ | ⟨-, added⟩)
      · exact absurd split (absent _ _)
      · exact ⟨members, [], rfl, added⟩

/-- A pass within a set ends with its references, unless the set is incomplete. -/
theorem referencesOf_iff {set : SetView} {declared run' : Run} :
    (if set.settings.isIncomplete then .ok declared
      else v.referencePass interrupt (some set.name) config declared) = .ok run' ↔
      if checksReferences (some set) then
        v.referencePass interrupt (some set.name) config declared = .ok run'
      else
        declared = run' := by
  cases incomplete : set.settings.isIncomplete with
  | true => simp [checksReferences, incomplete]
  | false => simp [checksReferences, incomplete]

/-- The first part of a pass enlists everything, and adds what the declarations of the config add
in their turn.  It is followed by a reference pass unless references are left unchecked. -/
theorem pass_parts {P : Option String → Roll → Diagnostic → Prop}
    (first : ∀ set, Performs kind (v.declarationTasks set config)
      (·.enlistAll (v.checkedBeans config.beans) config.aliases) (P set))
    {set : Option SetView} {run run' : Run}
    (done : v.pass interrupt config set run = .ok run') :
    ∃ declared, declared.roll = v.finalRoll config set ∧
      run.AddsOf kind (AddsInTurn v config P (set.map SetView.name)
        { registry := startRegistry config set } (passMembers set)) declared ∧
      if checksReferences set then
        v.referencePass interrupt (set.map SetView.name) config declared = .ok run'
      else
        declared = run' := by
  cases set with
  | none =>
    obtain ⟨declared, declares, references⟩ := bind_eq_ok.1 done
    obtain ⟨rolls, added⟩ := declarationPass_adds first declares
    have before : run.AddsOf kind (P none { registry := .forConfig config.name }) declared := added
    refine ⟨declared, rolls, before.congr fun d _ => ?_, references⟩
    constructor
    · exact fun here => ⟨[], [], rfl, here⟩
    · rintro ⟨before, after, split, here⟩
      cases before with
      | nil => exact here
      | cons _ before => cases before <;> cases split
  | some set =>
    obtain ⟨started, met, members, declared, start, enlist, last, done⟩ :=
      setPass_ok_iff.1 done
    -- The question before the set leaves no trace in the diagnostics.
    have asking : Performs kind [pure ()] id (fun _ _ => False) :=
      Performs.single (Check.quiet_pure ())
    obtain ⟨-, asked⟩ := asking interrupt run started start
    obtain ⟨rolls, added⟩ := memberPasses_adds first enlist
    have members_added : started.AddsOf kind (AddsInTurn v config P (some set.name)
      { registry := setRegistry set } set.members) members := added
    obtain ⟨final, declared_added⟩ := lastPass_adds first rolls last
    have flag : met = (false || set.members.any SetMember.isSelf) :=
      (congrArg Prod.fst rolls).trans (Roll.fst_enlistMembers ..)
    have roll : members.roll
        = (Roll.enlistMembers v config false { registry := setRegistry set } set.members).2 :=
      congrArg Prod.snd rolls
    rw [flag, Bool.false_or, roll] at declared_added
    have before : run.AddsOf kind (AddsInTurn v config P (some set.name)
        { registry := setRegistry set } (passMembers (some set))) declared :=
      ((asked.trans members_added).trans declared_added).congr fun d _ => by
        rw [false_or, passMembers, addsInTurn_withConfig_iff]
    exact ⟨declared, final, before, referencesOf_iff.1 done⟩

/-- At its end a pass has enlisted everything, and has added what the declarations of the config
add in their turn, and then what the references add. -/
theorem pass_adds {P : Option String → Roll → Diagnostic → Prop}
    (first : ∀ set, Performs kind (v.declarationTasks set config)
      (·.enlistAll (v.checkedBeans config.beans) config.aliases) (P set))
    {Q : List BeanId → Roll → Diagnostic → Prop}
    (second : ∀ set refused, Performs kind (v.referenceTasks set refused config) id (Q refused))
    {set : Option SetView} {run run' : Run}
    (done : v.pass interrupt config set run = .ok run') :
    run'.roll = v.finalRoll config set ∧
      run.AddsOf kind (fun d =>
        AddsInTurn v config P (set.map SetView.name) { registry := startRegistry config set }
            (passMembers set) d ∨
          checksReferences set = true ∧ Q run'.roll.refused run'.roll d) run' := by
  obtain ⟨declared, final, before, rest⟩ := pass_parts first done
  cases checks : checksReferences set with
  | false =>
    rw [checks] at rest
    cases (rest : declared = run')
    exact ⟨final, before.congr fun _ _ => by simp⟩
  | true =>
    rw [checks] at rest
    obtain ⟨same, added⟩ := referencePass_ok (second _) rest
    exact ⟨same.trans final, (before.trans added).congr fun _ _ => by simp⟩

/-! ### Diagnostics that declarations do not make -/

section Unused

variable {code : String} (unused : code ∉ declarationCodes)
include unused

theorem declarationPass_ok {set : Option String} {run run' : Run}
    (done : v.declarationPass interrupt set config run = .ok run') :
    run'.roll = run.roll.enlistConfig v config ∧ run.AddsOf code (fun _ => False) run' :=
  declarationPass_adds (P := fun _ _ _ => False)
    (fun set => performs_declarationTasks unused v set config) done

theorem memberPasses_ok {set : String} {members : List SetMember} {met met' : Bool}
    {run run' : Run}
    (done : v.memberPasses interrupt set config met run members = .ok (met', run')) :
    (met', run'.roll) = Roll.enlistMembers v config met run.roll members ∧
      run.AddsOf code (fun _ => False) run' := by
  obtain ⟨rolls, added⟩ := memberPasses_adds (P := fun _ _ _ => False)
    (fun set => performs_declarationTasks unused v set config) done
  exact ⟨rolls, added.congr fun _ _ => by simp [AddsInTurn]⟩

/-- After the members of a set, the config has been enlisted: as one of them, or at the end. -/
theorem lastPass_ok {set : SetView} {met : Bool} {members declared : Run}
    (rolls : (met, members.roll)
      = Roll.enlistMembers v config false { registry := setRegistry set } set.members)
    (last : (if met then .ok members else
      v.declarationPass interrupt (some set.name) config members) = .ok declared) :
    declared.roll = v.finalRoll config (some set) ∧
      members.AddsOf code (fun _ => False) declared := by
  obtain ⟨final, added⟩ := lastPass_adds (P := fun _ _ _ => False)
    (fun set => performs_declarationTasks unused v set config) rolls last
  exact ⟨final, added.congr fun _ _ => by simp⟩

/-- At its end a pass has enlisted everything, and of the diagnostics with a code that the
first part does not use it has added what the second part adds. -/
theorem pass_ok {Q : List BeanId → Roll → Diagnostic → Prop}
    (second : ∀ set refused, Performs code (v.referenceTasks set refused config) id (Q refused))
    {set : Option SetView} {run run' : Run}
    (done : v.pass interrupt config set run = .ok run') :
    run'.roll = v.finalRoll config set ∧
      run.AddsOf code (fun d => checksReferences set = true ∧ Q run'.roll.refused run'.roll d)
        run' := by
  obtain ⟨final, added⟩ := pass_adds (P := fun _ _ _ => False)
    (fun set => performs_declarationTasks unused v set config) second done
  exact ⟨final, added.congr fun _ _ => by simp [AddsInTurn]⟩

end Unused

end Done

end Validator

end BeanWiring
