/-
# Super classes

The walk from a class along the names of super classes, whatever the index looks like: names may
be unknown, and chains may run into cycles.

`SuperWalk` is the walk without any bound on its length.  The walk of `hierarchy` is bounded by
the number of classes in the index; since no class is met twice, the bound is never what ends it.

Main statements:

* `superWalk_hierarchyFrom`, `SuperWalk.unique` : every walk ends, and in one way only;
* `SuperWalk.extends_of_mem`, `SuperWalk.mem_of_extends` : it meets what super names lead to.
-/
import Mathlib.Logic.Relation
import Mathlib.Data.List.Basic
import BeanWiring.Types.Index

namespace BeanWiring.TypeIndex

variable {t : TypeIndex}

/-! ## Known names -/

/-- A class is found under its own name. -/
theorem name_of_class? {name : String} {c : ClassInfo} (known : t.class? name = some c) :
    c.name = name := by
  simpa using List.find?_some known

/-- The number of known classes whose names are not among the given ones. -/
def unmet (t : TypeIndex) (names : List String) : Nat :=
  t.classes.countP fun c => c.name ∉ names

theorem unmet_le (t : TypeIndex) (names : List String) : t.unmet names ≤ t.classes.length :=
  List.countP_le_length

theorem unmet_le_of_subset {names more : List String} (h : names ⊆ more) :
    t.unmet more ≤ t.unmet names := by
  refine List.countP_mono_left fun c _ new => ?_
  simp only [decide_eq_true_eq] at new ⊢
  exact fun old => new (h old)

/-- Meeting a known name leaves fewer to meet. -/
theorem unmet_cons_lt {names : List String} {name : String} {c : ClassInfo}
    (known : t.class? name = some c) (new : name ∉ names) :
    t.unmet (name :: names) < t.unmet names := by
  obtain ⟨front, back, split⟩ := List.append_of_mem (List.mem_of_find?_eq_some known)
  have own := name_of_class? known
  have rest : ∀ cs : List ClassInfo, cs.countP (fun d => d.name ∉ name :: names)
      ≤ cs.countP fun d => d.name ∉ names := by
    refine fun cs => List.countP_mono_left fun d _ h => ?_
    simp only [decide_eq_true_eq, List.mem_cons, not_or] at h ⊢
    exact h.2
  have met : decide (name ∉ name :: names) = false := by simp
  have unmet : decide (name ∉ names) = true := decide_eq_true new
  have front_le := rest front
  have back_le := rest back
  rw [TypeIndex.unmet, TypeIndex.unmet, split, List.countP_append, List.countP_append,
    List.countP_cons, List.countP_cons, own, met, unmet, if_pos rfl, if_neg Bool.false_ne_true]
  omega

/-! ## The walk along super classes -/

/-- The walk along super names, from a class that names `superName`, when the classes of the names
`met` have been met already.  The last argument lists the classes that it meets from here on. -/
inductive SuperWalk (t : TypeIndex) :
    (met : List String) → (superName : Option String) → List ClassInfo → Prop
  | top {met : List String} : SuperWalk t met none []
  | metBefore {met : List String} {name : String} (again : name ∈ met) :
      SuperWalk t met (some name) []
  | unknown {met : List String} {name : String} (new : name ∉ met)
      (absent : t.class? name = none) : SuperWalk t met (some name) []
  | next {met : List String} {name : String} {c : ClassInfo} {rest : List ClassInfo}
      (new : name ∉ met) (known : t.class? name = some c)
      (walk : SuperWalk t (name :: met) c.superName rest) :
      SuperWalk t met (some name) (c :: rest)

/-- A name leads to another one if its class is known and has the other one as super name. -/
def Extends (t : TypeIndex) (a b : String) : Prop :=
  ∃ c, t.class? a = some c ∧ c.superName = some b

/-- A bounded walk is the unbounded one, as long as the bound exceeds the number of classes that
are left to meet. -/
theorem superWalk_hierarchyFrom (fuel : Nat) {met : List String} (superName : Option String)
    (enough : t.unmet met < fuel) :
    SuperWalk t met superName (t.hierarchyFrom fuel met superName) := by
  induction fuel generalizing met superName with
  | zero => exact absurd enough (Nat.not_lt_zero _)
  | succ fuel ih =>
    cases superName with
    | none => exact .top
    | some name =>
      rw [hierarchyFrom]
      by_cases again : name ∈ met
      · rw [if_pos again]
        exact .metBefore again
      · rw [if_neg again]
        cases known : t.class? name with
        | none => exact .unknown again known
        | some c =>
          have fewer := unmet_cons_lt known again
          exact .next again known (ih c.superName (by omega))

/-- The super classes of a class are those that the walk from it meets. -/
theorem superWalk_hierarchy (t : TypeIndex) (c : ClassInfo) :
    ∃ supers, t.hierarchy c = c :: supers ∧ SuperWalk t [c.name] c.superName supers :=
  ⟨_, rfl, superWalk_hierarchyFrom _ _ (Nat.lt_succ_of_le (unmet_le t _))⟩

namespace SuperWalk

variable {met : List String} {superName : Option String} {supers : List ClassInfo}

/-- Where a walk leads is determined by where it starts. -/
theorem unique {first second : List ClassInfo} (h : SuperWalk t met superName first)
    (h' : SuperWalk t met superName second) : first = second := by
  induction h generalizing second with
  | top => cases h'; rfl
  | metBefore again =>
    cases h' with
    | metBefore | unknown => rfl
    | next new => exact absurd again new
  | unknown new absent =>
    cases h' with
    | metBefore | unknown => rfl
    | next _ known => rw [absent] at known; cases known
  | next new known walk ih =>
    cases h' with
    | metBefore again => exact absurd again new
    | unknown _ absent => rw [known] at absent; cases absent
    | next _ known' walk' =>
      rw [known] at known'
      cases known'
      rw [ih walk']

/-- A class that is met is known, and super names lead to it. -/
theorem extends_of_mem (walk : SuperWalk t met superName supers) {type : String} {c : ClassInfo}
    (known : t.class? type = some c) (named : c.superName = superName) {d : ClassInfo}
    (there : d ∈ supers) :
    t.class? d.name = some d ∧ Relation.ReflTransGen t.Extends type d.name := by
  induction walk generalizing type c with
  | top | metBefore | unknown => cases there
  | @next met name e rest new known' walk ih =>
    have step : t.Extends type name := ⟨c, known, named⟩
    rcases List.mem_cons.1 there with rfl | later
    · rw [name_of_class? known']
      exact ⟨known', .single step⟩
    · obtain ⟨found, further⟩ := ih known' rfl later
      exact ⟨found, further.head step⟩

/-- Of a class that is met, the super class is met as well, unless its name was met before. -/
theorem mem_of_superName (walk : SuperWalk t met superName supers) {name : String} {d : ClassInfo}
    (known : t.class? name = some d)
    (named : superName = some name ∨ ∃ c ∈ supers, c.superName = some name) :
    name ∈ met ∨ d ∈ supers := by
  induction walk with
  | top =>
    rcases named with first | ⟨c, there, -⟩
    · cases first
    · cases there
  | metBefore again =>
    rcases named with first | ⟨c, there, -⟩
    · cases first
      exact .inl again
    · cases there
  | unknown _ absent =>
    rcases named with first | ⟨c, there, -⟩
    · cases first
      rw [absent] at known
      cases known
    · cases there
  | @next met first e rest _ known' _ ih =>
    have own : name = first → d ∈ e :: rest := by
      rintro rfl
      rw [known'] at known
      cases known
      exact List.mem_cons_self
    rcases named with here | ⟨c, there, named⟩
    · cases here
      exact .inr (own rfl)
    · have later : e.superName = some name ∨ ∃ c ∈ rest, c.superName = some name := by
        rcases List.mem_cons.1 there with rfl | there
        · exact .inl named
        · exact .inr ⟨c, there, named⟩
      rcases ih later with again | there
      · rcases List.mem_cons.1 again with same | again
        · exact .inr (own same)
        · exact .inl again
      · exact .inr (List.mem_cons_of_mem _ there)

/-- Whatever known class super names lead to is the first one or met. -/
theorem mem_of_extends {type : String} {c : ClassInfo} (known : t.class? type = some c)
    (walk : SuperWalk t [type] c.superName supers) {name : String}
    (leads : Relation.ReflTransGen t.Extends type name) {d : ClassInfo}
    (found : t.class? name = some d) : d ∈ c :: supers := by
  induction leads generalizing d with
  | refl =>
    rw [known] at found
    cases found
    exact List.mem_cons_self
  | @tail _ name _ step ih =>
    obtain ⟨e, known', named⟩ := step
    have named' : c.superName = some name ∨ ∃ e ∈ supers, e.superName = some name := by
      rcases List.mem_cons.1 (ih known') with rfl | there
      · exact .inl named
      · exact .inr ⟨e, there, named⟩
    rcases walk.mem_of_superName found named' with again | there
    · rw [List.mem_singleton.1 again, known] at found
      cases found
      exact List.mem_cons_self
    · exact List.mem_cons_of_mem c there

end SuperWalk

end BeanWiring.TypeIndex
