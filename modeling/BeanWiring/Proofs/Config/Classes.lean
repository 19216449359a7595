/-
# Beans by class

What is known of classes is exact at every level: in the index of one document, in a config with
its imports, and in a merged set.  The beans of a class are those that declare it, each as often as
it occurs; a class is known if and only if it has beans; and the list of classes is strictly
increasing.

Main statements:

* `Regular.mem_classes_iff` : an index lists the classes that have beans;
* `listsClasses_tree` : classes of a config with its imports;
* `listsClasses_ofMembers` : classes of a merged set.
-/
import Mathlib.Data.List.Permutation
import Mathlib.Data.String.Basic
import BeanWiring.Proofs.Config.Merging

namespace BeanWiring

/-! ## Sorted strings -/

/-- Sorting strings drops none and adds none. -/
theorem mem_sortStrings {x : String} {xs : List String} : x ∈ sortStrings xs ↔ x ∈ xs :=
  (List.mergeSort_perm xs _).mem_iff

/-- Strings that are listed once are strictly increasing when they are sorted. -/
theorem pairwise_sortStrings {xs : List String} (once : xs.Nodup) :
    (sortStrings xs).Pairwise (· < ·) := by
  have sorted : (sortStrings xs).Pairwise fun a b => decide (a ≤ b) = true := by
    refine List.pairwise_mergeSort ?_ ?_ xs
    · intro a b c ab bc
      exact decide_eq_true (le_trans (of_decide_eq_true ab) (of_decide_eq_true bc))
    · intro a b
      simpa using le_total a b
  have once' : (sortStrings xs).Nodup := (List.mergeSort_perm xs _).nodup_iff.2 once
  refine (sorted.and once').imp ?_
  rintro a b ⟨le, ne⟩
  exact lt_of_le_of_ne (of_decide_eq_true le) ne

/-! ## Beans of a class -/

/-- The bean declares a class without placeholders, whose outermost class is `className`. -/
def Bean.IsOfClass (b : Bean) (className : String) : Prop :=
  ∃ declared, b.className = some declared ∧ hasPlaceholder declared = false ∧
    normalizeClass declared = className

/-- A bean is indexed by the class that it is of. -/
theorem indexedClass?_eq_some_iff {b : Bean} {className : String} :
    indexedClass? b = some className ↔ b.IsOfClass className := by
  rw [indexedClass?, Option.map_eq_some_iff]
  simp only [Option.filter_eq_some_iff, Bool.not_eq_true', and_assoc]
  rfl

instance (b : Bean) (className : String) : Decidable (b.IsOfClass className) :=
  decidable_of_iff _ indexedClass?_eq_some_iff

/-- Beans, each followed by those nested in it at any depth. -/
def withInner (beans : List Bean) : List Bean := beans.flatMap fun b => b :: b.innerDeep

/-- What is answered about classes is exact for a list of beans. -/
structure ListsClasses (all : List Bean) (hasClass : String → Bool)
    (beansOf : String → List Bean) (classes : List String) : Prop where
  /-- The beans of a class are those that are of it, in order and as often as they are listed. -/
  beans : ∀ className, beansOf className = all.filter (·.IsOfClass className)
  has : ∀ className, hasClass className = true ↔ beansOf className ≠ []
  mem : ∀ className, className ∈ classes ↔ beansOf className ≠ []
  increasing : classes.Pairwise (· < ·)

/-- What is said of classes besides their beans does not depend on the list of beans. -/
theorem ListsClasses.iff_beans {all all' : List Bean} {hasClass : String → Bool}
    {beansOf : String → List Bean} {classes : List String}
    (h : ListsClasses all hasClass beansOf classes) :
    ListsClasses all' hasClass beansOf classes ↔
      ∀ className, beansOf className = all'.filter (·.IsOfClass className) :=
  ⟨ListsClasses.beans, fun beans => ⟨beans, h.has, h.mem, h.increasing⟩⟩

/-! ## Indexes -/

namespace ClassIndex

variable {index : ClassIndex} {className : String}

/-- A class is in the index if it is listed. -/
theorem hasClass_iff_mem : index.hasClass className = true ↔ className ∈ index.classes :=
  Keyed.has_iff_mem

/-- Each class has one entry, and that has beans. -/
structure Regular (index : ClassIndex) : Prop where
  once : index.classes.Nodup
  nonempty : ∀ entry ∈ index.entries, entry.2 ≠ []

theorem regular_empty : Regular {} := ⟨List.nodup_nil, nofun⟩

/-- An index lists the classes that have beans. -/
theorem Regular.mem_classes_iff (h : index.Regular) :
    className ∈ index.classes ↔ index.beansOf className ≠ [] := by
  rw [beansOf]
  constructor
  · intro listed
    obtain ⟨entry, there, rfl⟩ := List.mem_map.1 listed
    rw [Keyed.get?_key_of_mem h.once there]
    exact h.nonempty entry there
  · intro some
    by_contra absent
    rw [Keyed.get?_eq_none_of_not_mem absent] at some
    exact some rfl

/-- An index that is extended by some beans has still one entry for each class. -/
theorem Regular.extend (h : index.Regular) {beans : List Bean} (some : beans ≠ []) :
    (index.extend className beans).Regular where
  once := Keyed.nodup_put _ h.once
  nonempty := by
    intro entry listed
    rcases Keyed.eq_or_mem_of_mem_put listed with rfl | before
    · exact List.append_ne_nil_of_right_ne_nil _ some
    · exact h.nonempty entry before

/-- Adding a bean keeps an index regular. -/
theorem Regular.add (h : index.Regular) (b : Bean) : (index.add b).Regular := by
  unfold ClassIndex.add
  cases indexedClass? b with
  | none => exact h
  | some className => exact h.extend (List.cons_ne_nil b [])

/-- The index of a list of beans is regular. -/
theorem regular_ofBeans (beans : List Bean) : (ofBeans beans).Regular :=
  List.foldlRecOn _ add regular_empty fun _ h b _ => h.add b

/-! ### Extensions by many classes -/

variable {beans : String → List Bean} {classes : List String}

/-- Extensions by different classes add the beans of each of them. -/
theorem beansOf_foldl_extend (once : classes.Nodup) (index : ClassIndex) :
    (classes.foldl (fun index c => index.extend c (beans c)) index).beansOf className
      = index.beansOf className ++ if className ∈ classes then beans className else [] := by
  induction classes generalizing index with
  | nil => exact (List.append_nil _).symm
  | cons c rest ih =>
    obtain ⟨new, once⟩ := List.nodup_cons.1 once
    rw [List.foldl_cons, ih once, beansOf_extend]
    by_cases same : c = className
    · subst same
      simp [new]
    · have other : ¬className = c := fun e => same e.symm
      simp [same, other]

/-- Joining the classes of other indexes keeps an index regular, if each of them has beans. -/
theorem Regular.foldl_extend (h : index.Regular) (some : ∀ c ∈ classes, beans c ≠ []) :
    (classes.foldl (fun index c => index.extend c (beans c)) index).Regular :=
  List.foldlRecOn _ _ h fun _ h c listed => h.extend (some c listed)

end ClassIndex

/-! ## Documents and trees -/

namespace Contents

variable {C : Type}

/-- Every bean of a document: its own and those of its components, each followed by those nested
in it. -/
def beansThroughout (c : Contents C) : List Bean :=
  withInner (c.beans ++ beansOfComponents c.components)

/-- The index of a document holds, for every class, the beans of it in order. -/
theorem beansOf_classIndex (c : Contents C) (className : String) :
    c.classIndex.beansOf className = c.beansThroughout.filter (·.IsOfClass className) := by
  rw [classIndex, ClassIndex.beansOf_ofBeans]
  simp only [indexedClass?_eq_some_iff]
  rfl

/-- The classes of a document are those that have beans in it. -/
theorem mem_classes_classIndex {c : Contents C} {className : String} :
    className ∈ c.classIndex.classes ↔ c.classIndex.beansOf className ≠ [] :=
  (ClassIndex.regular_ofBeans _).mem_classes_iff

end Contents

namespace ConfigTree

variable (t : ConfigTree) (className : String)

/-- Every bean of a config and of its imports. -/
def beansThroughout : List Bean := t.nodes.flatMap (·.contents.beansThroughout)

/-- They are the beans that the config answers with, those of its components, and those nested in
either. -/
theorem beansThroughout_perm : t.beansThroughout.Perm
    (withInner (t.beans ++ beansOfComponents t.components)) := by
  have components : beansOfComponents t.components
      = t.nodes.flatMap fun node => beansOfComponents node.contents.components := by
    simp only [beansOfComponents_eq_flatMap, ConfigTree.components, List.flatMap_assoc]
  rw [components, ConfigTree.beans]
  refine List.Perm.trans ?_ ((List.flatMap_append_perm t.nodes _ _).symm.flatMap_right _)
  rw [List.flatMap_assoc]
  exact .refl _

/-- The beans of a class are all those that are of the class. -/
theorem beansOfClass_eq_filter :
    t.beansOfClass className = t.beansThroughout.filter (·.IsOfClass className) := by
  rw [beansOfClass, beansThroughout, List.filter_flatMap]
  exact List.flatMap_congr fun node _ => node.contents.beansOf_classIndex className

/-- A config has beans of a class if one of its documents has. -/
theorem beansOfClass_ne_nil_iff : t.beansOfClass className ≠ [] ↔
    ∃ node ∈ t.nodes, node.contents.classIndex.beansOf className ≠ [] := by
  rw [beansOfClass, ne_eq, List.flatMap_eq_nil_iff]
  simp only [not_forall, exists_prop, ne_eq]

/-- A config has a class if it has beans of it. -/
theorem hasClass_iff : t.hasClass className = true ↔ t.beansOfClass className ≠ [] := by
  rw [beansOfClass_ne_nil_iff, hasClass, List.any_eq_true]
  simp only [ClassIndex.hasClass_iff_mem, Contents.mem_classes_classIndex]

/-- A config lists the classes of which it has beans. -/
theorem mem_classes_iff : className ∈ t.classes ↔ t.beansOfClass className ≠ [] := by
  rw [beansOfClass_ne_nil_iff, classes, mem_sortStrings, Keyed.mem_distinct, List.mem_flatMap]
  simp only [Contents.mem_classes_classIndex]

/-- A config lists classes in alphabetical order, each once. -/
theorem pairwise_classes : t.classes.Pairwise (· < ·) :=
  pairwise_sortStrings (Keyed.nodup_distinct _)

/-- What a config answers about classes is exact for its beans and those of its imports. -/
theorem listsClasses_tree :
    ListsClasses t.beansThroughout t.hasClass t.beansOfClass t.classes where
  beans := t.beansOfClass_eq_filter
  has := t.hasClass_iff
  mem := t.mem_classes_iff
  increasing := t.pairwise_classes

end ConfigTree

/-! ## Merged sets -/

namespace MergedSet

variable {C : Type} (settings : SetSettings) (members : List (C × ConfigTree))

/-- A member adds its beans to those of each class. -/
theorem beansOf_addMember (m : MergedSet C) (member : C) (t : ConfigTree) (className : String) :
    (m.addMember settings member t).classIndex.beansOf className
      = m.classIndex.beansOf className ++ t.beansOfClass className := by
  have once : t.classes.Nodup := t.pairwise_classes.imp ne_of_lt
  refine (ClassIndex.beansOf_foldl_extend once m.classIndex).trans (congrArg _ ?_)
  split
  · rfl
  · rename_i unlisted
    exact (not_not.1 (mt (t.mem_classes_iff className).2 unlisted)).symm

/-- The beans of a class in a merged set are those of its members, in the order in which they were
merged. -/
theorem beansOf_ofMembers (className : String) :
    (ofMembers settings members).classIndex.beansOf className
      = members.flatMap fun m => m.2.beansOfClass className := by
  induction members using List.reverseRecOn with
  | nil => rfl
  | append_singleton members m ih =>
    rw [ofMembers_concat, beansOf_addMember, ih, List.flatMap_append, List.flatMap_singleton]

/-- The index of a merged set is regular. -/
theorem regular_ofMembers : (ofMembers settings members).classIndex.Regular := by
  induction members using List.reverseRecOn with
  | nil => exact ClassIndex.regular_empty
  | append_singleton members m ih =>
    rw [ofMembers_concat]
    exact ih.foldl_extend fun c listed => (m.2.mem_classes_iff c).1 listed

/-- What a merged set answers about classes is exact for the beans of its members. -/
theorem listsClasses_ofMembers :
    ListsClasses (members.flatMap fun m => m.2.beansThroughout)
      (ofMembers settings members).classIndex.hasClass
      (ofMembers settings members).classIndex.beansOf (ofMembers settings members).classes where
  beans := by
    intro className
    rw [beansOf_ofMembers, List.filter_flatMap]
    exact List.flatMap_congr fun m _ => m.2.beansOfClass_eq_filter className
  has := fun _ =>
    ClassIndex.hasClass_iff_mem.trans (regular_ofMembers settings members).mem_classes_iff
  mem := fun _ => mem_sortStrings.trans (regular_ofMembers settings members).mem_classes_iff
  increasing := pairwise_sortStrings (regular_ofMembers settings members).once

end MergedSet

end BeanWiring
