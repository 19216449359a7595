/-
# Beans that are skipped

A bean that is internal to a framework may be skipped.  The first pass goes down from bean to bean
and turns back at one that is skipped, so it checks a definition exactly if nothing on the way down
to it is skipped.  The second pass lists everything nested in a bean that it does not skip, at any
depth, and leaves out of the list what is itself skipped; what is nested in a skipped inner bean
stays in the list.  So the second pass checks whatever the first does, and the two agree on a bean
exactly if nothing is left to check within the inner beans that are skipped.

Main statements:

* `mem_definitionsChecked_iff` : whose definitions the first pass checks;
* `definitionsChecked_eq_iff` : when the second pass checks no more than that;
* `skipping_iff` : what the two parts of a pass report, and about which beans.
-/
import BeanWiring.Proofs.Validation.Agreement
import Mathlib.Data.List.Flatten

namespace BeanWiring.Validator

open Check

open Diagnostic (Kind)

/-! ## Checked beans -/

/-- Nothing on the way from a bean down to another is skipped, the two included. -/
inductive Exposes (v : Validator) : Bean → Bean → Prop
  | own {b : Bean} (kept : v.skips b = false) : Exposes v b b
  | nested {b i x : Bean} (kept : v.skips b = false) (direct : i ∈ b.inner)
      (below : Exposes v i x) : Exposes v b x

/-- The beans in a bean whose definitions the first pass checks. -/
def definitionsChecked (v : Validator) (b : Bean) : List Bean :=
  (v.checkedIn b.nest).filter fun x => !v.skips x

/-- A bean and those nested in it, but for those that are skipped. -/
def keptIn (v : Validator) (b : Bean) : List Bean :=
  (b :: b.innerDeep).filter fun x => !v.skips x

/-- The beans in a bean whose references the second pass checks, if the bean is registered. -/
def referencesChecked (v : Validator) (b : Bean) : List Bean :=
  if v.skips b then [] else v.keptIn b

section Checked

variable {v : Validator} {b x : Bean}

theorem definitionsChecked_eq (v : Validator) (b : Bean) :
    v.definitionsChecked b
      = if v.skips b then [] else b :: b.inner.flatMap v.definitionsChecked := by
  rw [definitionsChecked, checkedIn_nest, List.filter_cons]
  cases v.skips b with
  | true => rfl
  | false =>
    rw [if_neg Bool.false_ne_true, List.filter_flatMap]
    rfl

theorem keptIn_eq (v : Validator) (b : Bean) :
    v.keptIn b = (if v.skips b then [] else [b]) ++ b.inner.flatMap v.keptIn := by
  rw [keptIn, Bean.innerDeep_eq, List.filter_cons, List.filter_flatMap]
  cases v.skips b with
  | true => rfl
  | false => rfl

theorem mem_keptIn_iff : x ∈ v.keptIn b ↔ (x = b ∨ x ∈ b.innerDeep) ∧ v.skips x = false := by
  rw [keptIn, List.mem_filter, List.mem_cons, Bool.not_eq_true']

theorem mem_referencesChecked_iff :
    x ∈ v.referencesChecked b ↔
      v.skips b = false ∧ (x = b ∨ x ∈ b.innerDeep) ∧ v.skips x = false := by
  rw [referencesChecked]
  cases v.skips b with
  | true => simp
  | false => simp [mem_keptIn_iff]

/-- The first pass checks a definition exactly if nothing on the way down to it is skipped. -/
theorem mem_definitionsChecked_iff : x ∈ v.definitionsChecked b ↔ v.Exposes b x := by
  induction b using Bean.inner_induction with
  | step b ih =>
    rw [definitionsChecked_eq]
    cases kept : v.skips b with
    | true =>
      refine iff_of_false List.not_mem_nil ?_
      intro exposed
      cases exposed with
      | own kept' => exact absurd kept' (by simp [kept])
      | nested kept' => exact absurd kept' (by simp [kept])
    | false =>
      rw [if_neg Bool.false_ne_true, List.mem_cons, List.mem_flatMap]
      constructor
      · rintro (rfl | ⟨i, direct, checked⟩)
        · exact .own kept
        · exact .nested kept direct ((ih i direct).1 checked)
      · intro exposed
        cases exposed with
        | own => exact .inl rfl
        | nested _ direct below => exact .inr ⟨_, direct, (ih _ direct).2 below⟩

/-! ### Where the two agree -/

/-- Two lists of parts are equal part by part if no part of the first has more than the second. -/
theorem flatMap_eq_iff_of_sublist {f g : Bean → List Bean} {bs : List Bean}
    (h : ∀ b ∈ bs, (f b).Sublist (g b)) :
    bs.flatMap f = bs.flatMap g ↔ ∀ b ∈ bs, f b = g b := by
  induction bs with
  | nil => simp
  | cons b bs ih =>
    have later : ∀ c ∈ bs, (f c).Sublist (g c) := fun c hc => h c (List.mem_cons_of_mem b hc)
    rw [List.flatMap_cons, List.flatMap_cons, List.forall_mem_cons, ← ih later]
    constructor
    · intro same
      have lengths := congrArg List.length same
      have first := (h b List.mem_cons_self).length_le
      have rest := (List.Sublist.flatMap_right bs later).length_le
      rw [List.length_append, List.length_append] at lengths
      exact List.append_inj same (by omega)
    · rintro ⟨first, rest⟩
      rw [first, rest]

theorem definitionsChecked_sublist_keptIn (v : Validator) (b : Bean) :
    (v.definitionsChecked b).Sublist (v.keptIn b) := by
  induction b using Bean.inner_induction with
  | step b ih =>
    rw [definitionsChecked_eq, keptIn_eq]
    cases v.skips b with
    | true => exact List.nil_sublist _
    | false => exact (List.Sublist.flatMap_right b.inner ih).cons_cons b

theorem keptIn_eq_nil_iff (skipped : v.skips b = true) :
    v.keptIn b = [] ↔ ∀ x ∈ b.innerDeep, v.skips x = true := by
  rw [keptIn, List.filter_eq_nil_iff, List.forall_mem_cons]
  simp [skipped]

theorem definitionsChecked_eq_keptIn_iff :
    v.definitionsChecked b = v.keptIn b ↔
      ∀ i, i = b ∨ i ∈ b.innerDeep → v.skips i = true → ∀ x ∈ i.innerDeep, v.skips x = true := by
  induction b using Bean.inner_induction with
  | step b ih =>
    cases kept : v.skips b with
    | true =>
      have nothing : v.definitionsChecked b = [] := by
        rw [definitionsChecked_eq, if_pos kept]
      rw [nothing, eq_comm, keptIn_eq_nil_iff kept]
      constructor
      · rintro none i (rfl | within) _ x deeper
        · exact none x deeper
        · exact none x (Bean.innerDeep_trans within deeper)
      · exact fun none => none b (.inl rfl) kept
    | false =>
      rw [definitionsChecked_eq, keptIn_eq, kept, if_neg Bool.false_ne_true,
        if_neg Bool.false_ne_true, List.singleton_append, List.cons.injEq,
        flatMap_eq_iff_of_sublist fun i _ => definitionsChecked_sublist_keptIn v i]
      constructor
      · rintro ⟨-, same⟩ j (rfl | within) skipped
        · exact absurd skipped (by simp [kept])
        · obtain ⟨i, direct, place⟩ := Bean.mem_innerDeep_iff.1 within
          exact (ih i direct).1 (same i direct) j place skipped
      · intro all
        refine ⟨rfl, fun i direct => (ih i direct).2 fun j place skipped => ?_⟩
        exact all j (.inr (Bean.mem_innerDeep_iff.2 ⟨i, direct, place⟩)) skipped

/-- The second pass checks whatever the first one does. -/
theorem definitionsChecked_sublist (v : Validator) (b : Bean) :
    (v.definitionsChecked b).Sublist (v.referencesChecked b) := by
  rw [referencesChecked]
  cases kept : v.skips b with
  | true =>
    rw [definitionsChecked_eq, kept]
    exact List.Sublist.refl _
  | false => exact definitionsChecked_sublist_keptIn v b

/-- It checks nothing else exactly if nothing is left to check within the inner beans that are
skipped. -/
theorem definitionsChecked_eq_iff :
    v.definitionsChecked b = v.referencesChecked b ↔
      (v.skips b = false → ∀ i ∈ b.innerDeep, v.skips i = true →
        ∀ x ∈ i.innerDeep, v.skips x = true) := by
  rw [referencesChecked]
  cases kept : v.skips b with
  | true => simp [definitionsChecked_eq, kept]
  | false =>
    rw [if_neg Bool.false_ne_true, definitionsChecked_eq_keptIn_iff]
    constructor
    · exact fun all _ i within => all i (.inr within)
    · rintro all i (rfl | within) skipped
      · exact absurd skipped (by simp [kept])
      · exact all rfl i within skipped

/-! ### In the two passes -/

/-- The beans that the first pass visits and does not skip. -/
theorem mem_checkedBeans_iff {bs : List Bean} :
    x ∈ v.checkedBeans bs ∧ v.skips x = false ↔ ∃ b ∈ bs, x ∈ v.definitionsChecked b := by
  simp only [checkedBeans_eq_flatMap, List.mem_flatMap, definitionsChecked, List.mem_filter,
    Bool.not_eq_true']
  constructor
  · rintro ⟨⟨b, declared, visited⟩, kept⟩
    exact ⟨b, declared, visited, kept⟩
  · rintro ⟨b, declared, visited, kept⟩
    exact ⟨⟨b, declared, visited⟩, kept⟩

/-- A bean that the first pass visits and registers is one of the config. -/
theorem mem_of_mem_checkedBeans {bs : List Bean} (visited : x ∈ v.checkedBeans bs)
    (registered : x.isInner = false) : x ∈ bs := by
  rw [checkedBeans_eq_flatMap] at visited
  obtain ⟨b, declared, there⟩ := List.mem_flatMap.1 visited
  rcases mem_of_mem_checkedIn there with rfl | nested
  · exact declared
  · exact absurd (Bean.isInner_of_mem_innerDeep nested) (by simp [registered])

/-- The beans whose references the second pass checks, bean by bean. -/
theorem checks_iff {config : Context} {refused : List BeanId} :
    v.Checks config refused x ↔
      ∃ b ∈ config.beans, b.id ∉ refused ∧ x ∈ v.referencesChecked b := by
  simp only [mem_referencesChecked_iff]
  constructor
  · intro checks
    cases checks with
    | own declared accepted kept => exact ⟨x, declared, accepted, kept, .inl rfl, kept⟩
    | inner declared accepted kept within keptItself =>
      exact ⟨_, declared, accepted, kept, .inr within, keptItself⟩
  · rintro ⟨b, declared, accepted, kept, rfl | within, keptItself⟩
    · exact .own declared accepted kept
    · exact .inner declared accepted kept within keptItself

end Checked

/-! ## Reports -/

/-- A report of the first part of a pass: a name that is taken, or something wrong with the
definition of a bean to which nothing on the way is skipped. -/
inductive ReportsDeclaration (v : Validator) (config : Context) : Diagnostic → Prop
  | nameTaken {b : Bean} (declared : b ∈ config.beans) (line : Nat) (set : Option String)
      (error : RegistryError) :
      ReportsDeclaration v config (Report.bean b line (.nameTaken set error)).toDiagnostic
  | aliasRefused {b : Bean} (declared : b ∈ config.beans) (line : Nat) (name : String)
      (error : RegistryError) :
      ReportsDeclaration v config (Report.bean b line (.aliasRefused name error)).toDiagnostic
  | definition {b x : Bean} (declared : b ∈ config.beans) (exposed : v.Exposes b x) (line : Nat)
      {f : Finding} (found : Defines f) :
      ReportsDeclaration v config (Report.bean x line f).toDiagnostic
  | aliasing {a : BeanAlias} (declared : a ∈ config.aliases) (error : RegistryError) :
      ReportsDeclaration v config (Report.aliasing a (.refused error)).toDiagnostic

/-- A report of the second part of a pass: something wrong with the references of a bean that is
kept in one that is registered, or with the target of an alias. -/
inductive ReportsReference (v : Validator) (config : Context) (refused : List BeanId) :
    Diagnostic → Prop
  | reference {b x : Bean} (declared : b ∈ config.beans) (accepted : b.id ∉ refused)
      (checked : x ∈ v.referencesChecked b) (line : Nat) {f : Finding}
      (found : v.Refers x f ∨ v.Dangles f) :
      ReportsReference v config refused (Report.bean x line f).toDiagnostic
  | target {a : BeanAlias} (declared : a ∈ config.aliases) (counts : v.ignores a.beanName = false) :
      ReportsReference v config refused (undefinedTarget a)

section Parts

variable (v : Validator) (set : Option String) (config : Context)

/-- The first part of a pass reports all definitions with a fault, and nothing but what it may. -/
theorem performs_definitions :
    Performs (fun d => v.ReportsDeclaration config d → d.code = some "INVALID_BEAN_DEFINITION")
      (v.declarationTasks set config) (·.enlistAll (v.checkedBeans config.beans) config.aliases)
      (fun _ d => ∃ b ∈ config.beans, ∃ x ∈ v.definitionsChecked b, x.IsFaulty d) := by
  refine Performs.congr (performs_enlisting v set ?_ ?_ ?_) (fun _ => rfl) ?_
  · intro a declared error hd
    have other : "INVALID_BEAN_ALIAS" = "INVALID_BEAN_DEFINITION" :=
      Option.some.inj (hd (.aliasing declared error))
    exact absurd other (by decide)
  · intro b visited registered name error hd
    have declared := mem_of_mem_checkedBeans visited registered
    exact Kind.not_ofCode (by simp [Finding.code]) (hd (.aliasRefused declared _ name error))
  · intro x visited kept line f found hd
    obtain ⟨b, declared, checked⟩ := mem_checkedBeans_iff.1 ⟨visited, kept⟩
    have exposed := mem_definitionsChecked_iff.1 checked
    exact Kind.not_ofCode found.code_ne (hd (.definition declared exposed line (.mismatch found)))
  · intro r d hd
    constructor
    · rintro (⟨_, b, _, split, registered, error, -, rfl⟩ | ⟨x, visited, kept, faulty⟩)
      · have visited : b ∈ v.checkedBeans config.beans :=
          split ▸ List.mem_append_right _ List.mem_cons_self
        have declared := mem_of_mem_checkedBeans visited registered
        exact absurd (hd (.nameTaken declared _ set error))
          (Kind.not_ofCode (by simp [Finding.code]))
      · obtain ⟨b, declared, checked⟩ := mem_checkedBeans_iff.1 ⟨visited, kept⟩
        exact ⟨b, declared, x, checked, faulty⟩
    · rintro ⟨b, declared, x, checked, faulty⟩
      obtain ⟨visited, kept⟩ := mem_checkedBeans_iff.2 ⟨b, declared, checked⟩
      exact .inr ⟨x, visited, kept, faulty⟩

/-- The second part reports all unmarked references that lead nowhere, and nothing but what it
may. -/
theorem performs_references (refused : List BeanId) :
    Performs
      (fun d => v.ReportsReference config refused d → d.code = some "UNDEFINED_REFERENCED_BEAN")
      (v.referenceTasks set refused config) id
      (fun r d => ∃ x line name, v.Checks config refused x ∧ v.Mentions r.registry x line name ∧
        v.Misses r.registry name ∧ d = undefinedReference x line name) := by
  refine performs_unmarked v set ?_ ?_ ?_
  · intro x checks line f refers hd
    obtain ⟨b, declared, accepted, checked⟩ := checks_iff.1 checks
    exact Kind.not_ofCode refers.code_ne
      (hd (.reference declared accepted checked line (.inl refers)))
  · intro x checks line name counts hd
    obtain ⟨b, declared, accepted, checked⟩ := checks_iff.1 checks
    exact Kind.not_ofCode (by simp [Finding.code])
      (hd (.reference declared accepted checked line (.inr (.marked counts))))
  · intro a declared counts hd
    have other : "UNDEFINED_ALIAS_TARGET" = "UNDEFINED_REFERENCED_BEAN" :=
      Option.some.inj (hd (.target declared counts))
    exact absurd other (by decide)

end Parts

/-! ## A pass -/

section Pass

variable {v : Validator} {config : Context} {set : Option SetView} {run run' declared : Run}

/-- What the first part of a pass has reported, once it is done. -/
theorem reported_of_definitions
    (added : run.AddsOf
      (fun d => v.ReportsDeclaration config d → d.code = some "INVALID_BEAN_DEFINITION")
      (AddsInTurn v config
        (fun _ _ d => ∃ b ∈ config.beans, ∃ x ∈ v.definitionsChecked b, x.IsFaulty d)
        (set.map SetView.name) { registry := startRegistry config set } (passMembers set))
      declared) :
    ∃ reported, declared.diagnostics.toList = run.diagnostics.toList ++ reported ∧
      (∀ d ∈ reported, v.ReportsDeclaration config d) ∧
      ∀ b ∈ config.beans, ∀ x ∈ v.definitionsChecked b, ∀ d, x.IsFaulty d → d ∈ reported := by
  obtain ⟨reported, appended, exact⟩ := added
  refine ⟨reported, appended, ?_, ?_⟩
  · intro d there
    by_contra unfounded
    obtain ⟨_, _, -, b, hb, x, checked, -, fault, -, rfl⟩ :=
      (exact d fun founded => absurd founded unfounded).1 there
    exact unfounded
      (.definition hb (mem_definitionsChecked_iff.1 checked) _ (.invalid fault))
  · intro b hb x checked d faulty
    obtain ⟨before, after, split⟩ := List.append_of_mem (self_mem_passMembers set)
    refine (exact d fun _ => ?_).2 ⟨before, after, split, b, hb, x, checked, faulty⟩
    obtain ⟨-, fault, -, rfl⟩ := faulty
    rfl

/-- What the second part has reported. -/
theorem reported_of_references {interrupt : Interrupt} {name : Option String}
    (done : v.referencePass interrupt name config declared = .ok run') :
    ∃ reported, run'.diagnostics.toList = declared.diagnostics.toList ++ reported ∧
      (∀ d ∈ reported, v.ReportsReference config run'.unregistered d) ∧
      ∀ b ∈ config.beans, b.id ∉ run'.unregistered → ∀ x ∈ v.referencesChecked b,
        ∀ line name, v.Mentions run'.registry x line name → v.Misses run'.registry name →
          undefinedReference x line name ∈ reported := by
  obtain ⟨rolls, reported, appended, exact⟩ :=
    performs_references v name config declared.unregistered interrupt declared run' done
  have roll : declared.roll = run'.roll := rolls.symm
  have refused : declared.unregistered = run'.unregistered := congrArg Roll.refused roll
  rw [refused, roll] at exact
  refine ⟨reported, appended, ?_, ?_⟩
  · intro d there
    by_contra unfounded
    obtain ⟨x, line, name, checks, -, misses, rfl⟩ :=
      (exact d fun founded => absurd founded unfounded).1 there
    obtain ⟨b, hb, accepted, checked⟩ := checks_iff.1 checks
    exact unfounded (.reference hb accepted checked line (.inr (.unmarked misses.counts)))
  · intro b hb accepted x checked line name mentions misses
    exact (exact (undefinedReference x line name) fun _ => rfl).2
      ⟨x, line, name, checks_iff.2 ⟨b, hb, accepted, checked⟩, mentions, misses, rfl⟩

/-- **Skipped beans.**  In a bean the first part of a pass checks the definitions to which nothing
on the way is skipped.  Unless the bean itself is skipped, the second part checks the references of
all beans in it that are not skipped themselves: at least the same beans, and no others exactly if
nothing is left to check within the inner beans that are skipped.  A pass that is never cancelled
comes to its end, and what every pass adds is in two parts.  The first is about names, and about
definitions that are checked, each fault of which it reports; the second is about the references of
beans checked in registered ones, and about aliases, and it reports each reference that leads
nowhere. -/
theorem skipping_iff (v : Validator) :
    (∀ b,
      (∀ x, x ∈ v.definitionsChecked b ↔ v.Exposes b x) ∧
      (∀ x, x ∈ v.referencesChecked b ↔
        v.skips b = false ∧ (x = b ∨ x ∈ b.innerDeep) ∧ v.skips x = false) ∧
      (v.definitionsChecked b).Sublist (v.referencesChecked b) ∧
      (v.definitionsChecked b = v.referencesChecked b ↔
        (v.skips b = false → ∀ i ∈ b.innerDeep, v.skips i = true →
          ∀ x ∈ i.innerDeep, v.skips x = true))) ∧
    ∀ (config : Context) (set : Option SetView) (run : Run),
      (∃ run', v.pass (fun _ _ => false) config set run = .ok run') ∧
      ∀ (interrupt : Interrupt) (run' : Run), v.pass interrupt config set run = .ok run' →
        ∃ first second,
          run'.diagnostics.toList = run.diagnostics.toList ++ (first ++ second) ∧
          (∀ d ∈ first, v.ReportsDeclaration config d) ∧
          (∀ b ∈ config.beans, ∀ x ∈ v.definitionsChecked b, ∀ d, x.IsFaulty d → d ∈ first) ∧
          (checksReferences set = false → second = []) ∧
          (∀ d ∈ second, v.ReportsReference config run'.unregistered d) ∧
          (checksReferences set = true → ∀ b ∈ config.beans, b.id ∉ run'.unregistered →
            ∀ x ∈ v.referencesChecked b, ∀ line name, v.Mentions run'.registry x line name →
              v.Misses run'.registry name → undefinedReference x line name ∈ second) := by
  refine ⟨fun b => ⟨fun _ => mem_definitionsChecked_iff, fun _ => mem_referencesChecked_iff,
    definitionsChecked_sublist v b, definitionsChecked_eq_iff⟩, ?_⟩
  intro config set run
  refine ⟨pass_completes v config set run, ?_⟩
  intro interrupt run' done
  obtain ⟨declared, -, added, rest⟩ :=
    pass_parts (fun set => performs_definitions v set config) done
  obtain ⟨first, appended, founded, faults⟩ := reported_of_definitions added
  cases checks : checksReferences set with
  | false =>
    rw [checks, if_neg Bool.false_ne_true] at rest
    subst rest
    exact ⟨first, [], by rw [List.append_nil, appended], founded, faults, fun _ => rfl,
      List.forall_mem_nil _, nofun⟩
  | true =>
    rw [checks, if_pos rfl] at rest
    obtain ⟨second, appended', founded', missing⟩ := reported_of_references rest
    exact ⟨first, second, by rw [appended', appended, List.append_assoc], founded, faults, nofun,
      founded', fun _ => missing⟩

end Pass

/-! ### A bean within a skipped one -/

namespace Hidden

/-- A declaration that refers to `missing`, at line 3. -/
def leaf : Declaration :=
  ⟨"(inner bean)", [], { className := some "Foo"
                         properties := [⟨"r", .reference "missing" false, .atLine "beans.xml" 3⟩]
                         location := .atLine "beans.xml" 3 }⟩

/-- A declaration of the framework, with that one in a property. -/
def framework : Declaration :=
  ⟨"(inner bean)", [], { className := some "Foo"
                         role := some .infrastructure
                         properties := [⟨"q", .nested leaf, .atLine "beans.xml" 2⟩]
                         location := .atLine "beans.xml" 2 }⟩

/-- A bean with the declaration of the framework in a property. -/
def root : Bean :=
  .named "beans.xml"
    ⟨"root", [], { className := some "Foo"
                   properties := [⟨"p", .nested framework, .atLine "beans.xml" 1⟩]
                   location := .atLine "beans.xml" 1 }⟩

/-- The innermost bean. -/
def innermost : Bean := leaf.innerBean (framework.innerBean root.id).id

/-- A config with the bean. -/
def config : Context := { name := "beans.xml", kind := .config, beans := [root] }

/-- The first pass leaves the innermost bean alone, and the second does not: its reference is
reported. -/
theorem reported_within_skipped :
    innermost ∉ ({} : Validator).definitionsChecked root ∧
      ∃ run', ({} : Validator).pass (fun _ _ => false) config none {} = .ok run' ∧
        undefinedReference innermost 3 "missing" ∈ run'.diagnostics.toList := by
  obtain ⟨beans, passes⟩ := skipping_iff {}
  obtain ⟨-, kept, -, -⟩ := beans root
  constructor
  · intro checked
    have only : ({} : Validator).definitionsChecked root = [root] := rfl
    rw [only, List.mem_singleton] at checked
    have inner : true = false := congrArg Bean.isInner checked
    cases inner
  · obtain ⟨⟨run', done⟩, passed⟩ := passes config none {}
    obtain ⟨first, second, appended, -, -, -, -, missing⟩ := passed _ run' done
    have checked : innermost ∈ ({} : Validator).referencesChecked root :=
      (kept innermost).2 ⟨rfl, .inr (.tail _ (.head _)), rfl⟩
    have registry : run'.registry = (finalRoll {} config none).registry := registry_of_pass done
    have refused : run'.unregistered = [] := unregistered_of_pass done
    refine ⟨run', done, ?_⟩
    rw [appended]
    refine List.mem_append_right _ (List.mem_append_right _ (missing rfl root
      (List.mem_singleton_self _) ?_ innermost checked 3 "missing" ?_ ?_))
    · rw [refused]
      exact List.not_mem_nil
    · exact .property (List.mem_singleton_self _) rfl (List.mem_singleton_self _)
    · refine ⟨by decide, ?_, by decide⟩
      rw [registry]
      rfl

end Hidden

end BeanWiring.Validator
