/-
# Interfaces of a class

Which interfaces a class implements, in an index that may be cyclic, incomplete or ill formed: the
names that lie one or more steps above a class of its superclass chain.

The names are collected depth first into one collection for the whole chain, and a name that is
collected is not followed again.  `Collects` is this traversal without any bound on its depth; the
depth is bounded by the number of classes in the index, and the bound is never reached.

Main statements:

* `collects_foldl_addInterface`, `Collects.unique` : the traversal ends, and in one way only;
* `Collects.reached`, `Collects.closed` : what it collects, and that nothing is missed;
* `implements_iff_reachable` : a class implements the interfaces that are reached from its chain.
-/
import BeanWiring.Proofs.Types.Hierarchy

namespace BeanWiring.TypeIndex

open Relation

variable {t : TypeIndex}

/-! ## Steps between names -/

/-- A step up from a known class or interface: to a name that it lists as interface, or from an
interface to its super name. -/
inductive StepsTo (t : TypeIndex) : String → String → Prop
  | listed {a b : String} {c : ClassInfo} (known : t.class? a = some c)
      (listed : b ∈ c.interfaces) : StepsTo t a b
  | super {a b : String} {c : ClassInfo} (known : t.class? a = some c)
      (isInterface : c.isInterface = true) (named : c.superName = some b) : StepsTo t a b

theorem mem_stepsUp_iff {c : ClassInfo} {name : String} :
    name ∈ stepsUp c ↔ name ∈ c.interfaces ∨ c.isInterface = true ∧ c.superName = some name := by
  cases isInterface : c.isInterface <;> simp [stepsUp, isInterface]

theorem stepsTo_iff {a b : String} :
    t.StepsTo a b ↔ ∃ c, t.class? a = some c ∧ b ∈ stepsUp c := by
  constructor
  · rintro (⟨known, listed⟩ | ⟨known, isInterface, named⟩)
    · exact ⟨_, known, mem_stepsUp_iff.2 (.inl listed)⟩
    · exact ⟨_, known, mem_stepsUp_iff.2 (.inr ⟨isInterface, named⟩)⟩
  · rintro ⟨c, known, above⟩
    rcases mem_stepsUp_iff.1 above with listed | ⟨isInterface, named⟩
    · exact .listed known listed
    · exact .super known isInterface named

/-! ## Collecting names -/

/-- The traversal of names and all that is above them, in order, when the names `collected` have
been collected already.  The last argument is what is collected in the end. -/
inductive Collects (t : TypeIndex) : (collected names : List String) → List String → Prop
  | done (collected : List String) : Collects t collected [] collected
  | again {collected names out : List String} {name : String} (old : name ∈ collected)
      (rest : Collects t collected names out) : Collects t collected (name :: names) out
  | unknown {collected names out : List String} {name : String} (new : name ∉ collected)
      (absent : t.class? name = none) (rest : Collects t (name :: collected) names out) :
      Collects t collected (name :: names) out
  | known {collected names above out : List String} {name : String} {c : ClassInfo}
      (new : name ∉ collected) (known : t.class? name = some c)
      (up : Collects t (name :: collected) (stepsUp c) above)
      (rest : Collects t above names out) : Collects t collected (name :: names) out

theorem subset_addInterface (t : TypeIndex) (fuel : Nat) (collected : List String)
    (name : String) : collected ⊆ t.addInterface fuel collected name :=
  fun x => mem_addInterface t fuel collected name x

/-- A bounded traversal is the unbounded one, as long as the bound exceeds the number of classes
whose names are left to collect. -/
theorem collects_foldl_addInterface (fuel : Nat) {collected : List String} (names : List String)
    (enough : t.unmet collected < fuel) :
    t.Collects collected names (names.foldl (t.addInterface fuel) collected) := by
  induction fuel generalizing collected names with
  | zero => exact absurd enough (Nat.not_lt_zero _)
  | succ fuel deeper =>
    induction names generalizing collected with
    | nil => exact .done collected
    | cons name names ih =>
      have room : t.unmet (t.addInterface (fuel + 1) collected name) < fuel + 1 :=
        Nat.lt_of_le_of_lt (unmet_le_of_subset (subset_addInterface t _ _ name)) enough
      have rest := ih room
      rw [List.foldl_cons]
      rw [addInterface] at rest ⊢
      by_cases old : name ∈ collected
      · rw [if_pos old] at rest ⊢
        exact .again old rest
      · rw [if_neg old] at rest ⊢
        cases known : t.class? name with
        | none =>
          rw [known] at rest
          exact .unknown old known rest
        | some c =>
          rw [known] at rest
          have fewer := unmet_cons_lt known old
          exact .known old known (deeper (stepsUp c) (by omega)) rest

/-- The interfaces of a class are collected from its chain. -/
theorem collects_interfacesOf (t : TypeIndex) (c : ClassInfo) :
    t.Collects [] ((t.hierarchy c).flatMap stepsUp) (t.interfacesOf c) :=
  collects_foldl_addInterface _ _ (Nat.lt_succ_of_le (unmet_le t []))

namespace Collects

variable {collected names out : List String}

/-- What is collected in the end is determined by what is collected from where. -/
theorem unique {first second : List String} (h : t.Collects collected names first)
    (h' : t.Collects collected names second) : first = second := by
  induction h generalizing second with
  | done => cases h'; rfl
  | again old rest ih =>
    cases h' with
    | again _ rest' => exact ih rest'
    | unknown new | known new => exact absurd old new
  | unknown new absent rest ih =>
    cases h' with
    | again old => exact absurd old new
    | unknown _ _ rest' => exact ih rest'
    | known _ known => rw [absent] at known; cases known
  | known new known up rest ihUp ihRest =>
    cases h' with
    | again old => exact absurd old new
    | unknown _ absent => rw [known] at absent; cases absent
    | known _ known' up' rest' =>
      rw [known] at known'
      cases known'
      rw [ihUp up'] at ihRest
      exact ihRest rest'

/-- Nothing that is collected gets lost. -/
theorem subset (h : t.Collects collected names out) : collected ⊆ out := by
  induction h with
  | done => exact List.Subset.refl _
  | again _ _ ih => exact ih
  | unknown _ _ _ ih => exact fun x there => ih (List.mem_cons_of_mem _ there)
  | known _ _ _ _ ihUp ihRest => exact fun x there => ihRest (ihUp (List.mem_cons_of_mem _ there))

/-- Each of the names is collected. -/
theorem names_subset (h : t.Collects collected names out) : names ⊆ out := by
  induction h with
  | done => exact List.nil_subset _
  | again old rest ih => exact List.cons_subset.2 ⟨rest.subset old, ih⟩
  | unknown _ _ rest ih => exact List.cons_subset.2 ⟨rest.subset List.mem_cons_self, ih⟩
  | known _ _ up rest _ ihRest =>
    exact List.cons_subset.2 ⟨rest.subset (up.subset List.mem_cons_self), ihRest⟩

/-- Whatever joins the collection is reached from one of the names. -/
theorem reached (h : t.Collects collected names out) {x : String} (there : x ∈ out) :
    x ∈ collected ∨ ∃ name ∈ names, ReflTransGen t.StepsTo name x := by
  induction h with
  | done => exact .inl there
  | again _ _ ih =>
    rcases ih there with old | ⟨name, listed, reach⟩
    · exact .inl old
    · exact .inr ⟨name, List.mem_cons_of_mem _ listed, reach⟩
  | @unknown _ _ _ name _ _ _ ih =>
    rcases ih there with old | ⟨other, listed, reach⟩
    · rcases List.mem_cons.1 old with rfl | old
      · exact .inr ⟨x, List.mem_cons_self, .refl⟩
      · exact .inl old
    · exact .inr ⟨other, List.mem_cons_of_mem _ listed, reach⟩
  | @known _ _ _ _ name _ _ known _ _ ihUp ihRest =>
    rcases ihRest there with above | ⟨other, listed, reach⟩
    · rcases ihUp above with old | ⟨next, step, reach⟩
      · rcases List.mem_cons.1 old with rfl | old
        · exact .inr ⟨x, List.mem_cons_self, .refl⟩
        · exact .inl old
      · exact .inr ⟨name, List.mem_cons_self, reach.head (stepsTo_iff.2 ⟨_, known, step⟩)⟩
    · exact .inr ⟨other, List.mem_cons_of_mem _ listed, reach⟩

/-- The names above whatever joins the collection are collected too.  The names that were there
before may still be waiting for theirs: they are being followed. -/
theorem closed (h : t.Collects collected names out) {x y : String} (there : x ∈ out)
    (new : x ∉ collected) (step : t.StepsTo x y) : y ∈ out := by
  induction h with
  | done => exact absurd there new
  | again _ _ ih => exact ih there new
  | @unknown _ _ _ name _ absent _ ih =>
    refine ih there fun old => ?_
    rcases List.mem_cons.1 old with rfl | old
    · obtain ⟨c, known, -⟩ := stepsTo_iff.1 step
      rw [absent] at known
      cases known
    · exact new old
  | @known _ _ above _ name c _ known up rest ihUp ihRest =>
    by_cases early : x ∈ above
    · -- It was collected on the way up, or is the name that the way up starts from.
      refine rest.subset ?_
      by_cases own : x = name
      · obtain ⟨d, known', listed⟩ := stepsTo_iff.1 step
        rw [own, known] at known'
        cases known'
        exact up.names_subset listed
      · refine ihUp early fun old => ?_
        rcases List.mem_cons.1 old with same | old
        · exact own same
        · exact new old
    · exact ihRest there early

/-- Into an empty collection go the names and all that is reached from them. -/
theorem mem_iff (h : t.Collects [] names out) {x : String} :
    x ∈ out ↔ ∃ name ∈ names, ReflTransGen t.StepsTo name x := by
  constructor
  · intro there
    rcases h.reached there with old | reach
    · cases old
    · exact reach
  · rintro ⟨name, listed, reach⟩
    induction reach with
    | refl => exact h.names_subset listed
    | tail _ step ih => exact h.closed ih List.not_mem_nil step

end Collects

/-! ## Interfaces -/

/-- What is reached in steps from the names above the classes of a chain. -/
theorem exists_mem_stepsUp_iff {type : String} {c : ClassInfo} (known : t.class? type = some c)
    {supers : List ClassInfo} (walk : t.SuperWalk [c.name] c.superName supers) {x : String} :
    (∃ name ∈ (c :: supers).flatMap stepsUp, ReflTransGen t.StepsTo name x) ↔
      ∃ name, ReflTransGen t.Extends type name ∧ TransGen t.StepsTo name x := by
  have own := name_of_class? known
  constructor
  · rintro ⟨name, listed, reach⟩
    obtain ⟨d, there, above⟩ := List.mem_flatMap.1 listed
    have found : t.class? d.name = some d ∧ ReflTransGen t.Extends type d.name := by
      rcases List.mem_cons.1 there with rfl | there
      · rw [own]
        exact ⟨known, .refl⟩
      · exact walk.extends_of_mem known rfl there
    exact ⟨d.name, found.2, .head' (stepsTo_iff.2 ⟨d, found.1, above⟩) reach⟩
  · rintro ⟨name, chain, steps⟩
    obtain ⟨next, step, reach⟩ := TransGen.head'_iff.1 steps
    obtain ⟨d, found, above⟩ := stepsTo_iff.1 step
    rw [own] at walk
    exact ⟨next, List.mem_flatMap.2 ⟨d, walk.mem_of_extends known chain found, above⟩, reach⟩

/-- **Interfaces.**  The walk along the super classes of a class and the collection of what is above
them always end, in one way.  A class implements the names that are collected, and these are the
ones that are reached in one or more steps from what super names lead to. -/
theorem implements_iff_reachable {type : String} {c : ClassInfo} (known : t.class? type = some c)
    (interface : String) :
    (∃ supers names,
      (t.SuperWalk [c.name] c.superName supers ∧
        ∀ other, t.SuperWalk [c.name] c.superName other → other = supers) ∧
      (t.Collects [] ((c :: supers).flatMap stepsUp) names ∧
        ∀ other, t.Collects [] ((c :: supers).flatMap stepsUp) other → other = names) ∧
      (t.implements type interface = true ↔ interface ∈ names)) ∧
    (t.implements type interface = true ↔
      ∃ name, ReflTransGen t.Extends type name ∧ TransGen t.StepsTo name interface) := by
  obtain ⟨supers, chain, walk⟩ := superWalk_hierarchy t c
  have collects := collects_interfacesOf t c
  rw [chain] at collects
  have implements : t.implements type interface = true ↔ interface ∈ t.interfacesOf c := by
    rw [TypeIndex.implements, known, List.contains_iff_mem]
  refine ⟨⟨supers, t.interfacesOf c, ⟨walk, fun _ h => h.unique walk⟩,
    ⟨collects, fun _ h => h.unique collects⟩, implements⟩, ?_⟩
  rw [implements, collects.mem_iff, exists_mem_stepsUp_iff known walk]

/-! ### Cycles of both kinds -/

/-- Two classes that are super classes of each other, and two interfaces above one of them that
extend each other, one of them by its super name and the other one as a listed interface. -/
def crossed : TypeIndex :=
  ⟨[{ name := "Service", superName := some "Base" },
    { name := "Base", superName := some "Service", interfaces := ["Api", "Missing"] },
    { name := "Api", superName := some "Marker", isInterface := true },
    { name := "Marker", interfaces := ["Api"], isInterface := true }]⟩

/-- The class reaches the interface that is two steps above its super class. -/
theorem reachable_of_crossed :
    crossed.class? "Service" = some { name := "Service", superName := some "Base" } ∧
    ∃ name, ReflTransGen crossed.Extends "Service" name ∧
      TransGen crossed.StepsTo name "Marker" := by
  have known : crossed.class? "Service" = some { name := "Service", superName := some "Base" } :=
    rfl
  exact ⟨known, (implements_iff_reachable known "Marker").2.1 rfl⟩

end BeanWiring.TypeIndex
