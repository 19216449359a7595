/-
# What merging keeps of the arguments

A child passes its arguments on top of those that it inherits.  Each of its indexes has the
child's argument in the merged definition.  Arguments without index are compared by content: one
that is there already, inherited or passed before by the child itself, is not appended again.  So
each content of the child is there, but a content that the child repeats is not repeated by
merging.

Main statements:

* `occurrences_overrideWith` : how often a content comes once arguments are laid over others;
* `merged_keeps_arguments` : what of the arguments of a child is in its merged definition;
* `merged_drops_repeated_argument` : an argument that a child passes twice and its merged
  definition once.
-/
import BeanWiring.Proofs.Definition.Laws
import BeanWiring.Proofs.Lookup.Stepwise

namespace BeanWiring

/-- If each entry of a list has a partner in another one, and no two of them share a partner, the
other list is at least as long. -/
theorem length_le_of_partners {α : Type} {R : α → α → Prop} {xs ys : List α}
    (partner : ∀ x ∈ xs, ∃ y ∈ ys, R y x)
    (apart : xs.Pairwise fun x x' => ∀ y, R y x → ¬ R y x') : xs.length ≤ ys.length := by
  induction xs generalizing ys with
  | nil => exact Nat.zero_le _
  | cons x xs ih =>
    obtain ⟨first, apart⟩ := List.pairwise_cons.1 apart
    obtain ⟨⟨y, hy, here⟩, later⟩ := List.forall_mem_cons.1 partner
    obtain ⟨before, after, rfl⟩ := List.append_of_mem hy
    -- The partner of the first entry is not needed for the others.
    have shorter : xs.length ≤ (before ++ after).length := by
      refine ih (fun x' hx' => ?_) apart
      obtain ⟨y', hy', there⟩ := later x' hx'
      refine ⟨y', ?_, there⟩
      rw [List.mem_append, List.mem_cons] at hy'
      rw [List.mem_append]
      rcases hy' with hy' | rfl | hy'
      · exact Or.inl hy'
      · exact absurd there (first x' hx' y' here)
      · exact Or.inr hy'
    simp only [List.length_append, List.length_cons] at shorter ⊢
    omega

/-! ## Arguments of a content -/

namespace Arguments

variable {base other : Arguments (Value Declaration)} {a : Argument (Value Declaration)}

/-- How often an argument without index comes with the content of `a`. -/
def occurrences (args : Arguments (Value Declaration)) (a : Argument (Value Declaration)) : Nat :=
  args.generic.countP (·.sameContent a)

/-- The different contents of the arguments without index, in order of declaration. -/
def contents (args : Arguments (Value Declaration)) : List (Argument (Value Declaration)) :=
  args.generic.foldl addDistinct []

/-- Laid over others, a content is there as often as before, or once if it is new. -/
theorem occurrences_overrideWith (values : ∀ x ∈ other.generic, x.value.IsWellFormed) :
    (base.overrideWith other).occurrences a
      = max (base.occurrences a) (min 1 (other.occurrences a)) := by
  apply Keyed.countP_foldl_addUnlessCovered
  · intro x hx y
    exact Argument.sameContent_symm (values x hx)
  · intro x y z
    exact Argument.sameContent_trans

theorem occurrences_pos (values : ∀ x ∈ other.generic, x.value.IsWellFormed)
    (passed : a ∈ other.generic) : 0 < other.occurrences a :=
  List.countP_pos_iff.2 ⟨a, passed, Argument.sameContent_refl (values a passed)⟩

/-- Of arguments that do not repeat a content, each one is the only one of its content. -/
theorem occurrences_le_one (values : ∀ x ∈ other.generic, x.value.IsWellFormed)
    (once : other.generic.Pairwise fun x y => x.sameContent y = false) :
    other.occurrences a ≤ 1 := by
  rw [occurrences]
  generalize other.generic = args at values once
  induction args with
  | nil => exact Nat.zero_le 1
  | cons x args ih =>
    obtain ⟨first, once⟩ := List.pairwise_cons.1 once
    obtain ⟨here, later⟩ := List.forall_mem_cons.1 values
    rw [List.countP_cons]
    split
    · rename_i same
      have none : args.countP (·.sameContent a) = 0 := by
        rw [List.countP_eq_zero]
        intro y hy same'
        have back := Argument.sameContent_symm (later y hy) same'
        exact Bool.eq_false_iff.1 (first y hy) (Argument.sameContent_trans same back)
      omega
    · exact ih later once

end Arguments

/-! ## Arguments of a definition laid over another -/

namespace Definition

variable {base other : Definition (Value Declaration)}

theorem IsWellFormedDeep.generic (h : other.IsWellFormedDeep) :
    ∀ x ∈ other.arguments.generic, x.value.IsWellFormed :=
  fun _ there => h.values _ (mem_values_of_generic there)

/-- A stack of definitions over a root has well-formed tables at any depth. -/
theorem isWellFormedDeep_layered {root : Definition (Value Declaration)}
    {upper : List (Definition (Value Declaration))} (below : root.IsWellFormedDeep)
    (above : ∀ d ∈ upper, d.IsWellFormedDeep) : (layered upper root).IsWellFormedDeep := by
  induction upper with
  | nil => exact below
  | cons d upper ih =>
    obtain ⟨here, above⟩ := List.forall_mem_cons.1 above
    exact (ih above).overrideWith here

/-- A definition laid over another has room for every index and every content of its own. -/
theorem length_add_length_le_size (hb : base.IsWellFormedDeep) (ho : other.IsWellFormedDeep) :
    other.arguments.indexed.length + other.arguments.contents.length
      ≤ (base.overrideWith other).arguments.size := by
  have indexes : other.arguments.indexed.length
      ≤ (base.overrideWith other).arguments.indexed.length := by
    apply length_le_of_partners (R := fun p q => p.1 = q.1)
    · intro p hp
      have own : other.arguments.at? p.1 = some p :=
        Keyed.get?_key_of_mem ho.tables.indexed.nodup hp
      have kept : (base.overrideWith other).arguments.at? p.1 = some p := by
        rw [at?_overrideWith hb.tables ho.tables, own]
        rfl
      exact ⟨p, List.mem_of_find?_eq_some kept, rfl⟩
    · apply ho.tables.indexed.imp
      intro p q below r atP atQ
      omega
  have contents : other.arguments.contents.length
      ≤ (base.overrideWith other).arguments.generic.length := by
    apply length_le_of_partners (R := fun x y =>
      x ∈ (base.overrideWith other).arguments.generic ∧ x.sameContent y = true)
    · intro x hx
      have passed : x ∈ other.arguments.generic :=
        (Keyed.mem_or_mem_of_mem_foldl
          (fun _ _ _ => Keyed.eq_or_mem_of_mem_addUnlessCovered) hx).elim id nofun
      have kept : 0 < (base.overrideWith other).arguments.occurrences x := by
        show 0 < (base.arguments.overrideWith other.arguments).occurrences x
        have own := Arguments.occurrences_pos ho.generic passed
        rw [Arguments.occurrences_overrideWith ho.generic]
        omega
      obtain ⟨y, hy, same⟩ := List.countP_pos_iff.1 kept
      exact ⟨y, hy, hy, same⟩
    · have once : other.arguments.contents.Pairwise fun x y => x.sameContent y = false :=
        Keyed.pairwise_foldl_addUnlessCovered .nil
      apply once.imp
      rintro x x' other y ⟨hy, same⟩ ⟨-, same'⟩
      have back := Argument.sameContent_symm ((hb.overrideWith ho).generic y hy) same
      exact Bool.eq_false_iff.1 other (Argument.sameContent_trans back same')
  exact Nat.add_le_add indexes contents

end Definition

/-! ## Arguments of a child -/

variable {ctx : Context} {b root : Bean}

/-- The merged definition of a bean is well-formed at any depth if the declared ones are. -/
theorem isWellFormedDeep_merged (own : b.definition.IsWellFormedDeep)
    (others : ∀ c ∈ ctx.allBeans, c.definition.IsWellFormedDeep) :
    (merged ctx b).IsWellFormedDeep := by
  by_cases ends : ∃ root, (ancestors ctx b).getLast? = some root ∧ root.isChild = false
  · obtain ⟨root, last, isRoot⟩ := ends
    obtain ⟨between, chain⟩ := List.getLast?_eq_some_iff.1 last
    have ancestor : ∀ c ∈ between ++ [root], c.definition.IsWellFormedDeep := by
      intro c hc
      rw [← chain] at hc
      exact others c ((parentWalk_ancestors ctx b).mem_allBeans c hc)
    rw [merged_eq_layered chain isRoot]
    apply Definition.isWellFormedDeep_layered (ancestor root (by simp))
    intro d hd
    obtain ⟨c, hc, rfl⟩ := List.mem_map.1 hd
    rcases List.mem_cons.1 hc with rfl | hc
    · exact own
    · exact ancestor c (List.mem_append_left _ hc)
  · rw [merged_eq_definition]
    · exact own
    · intro root last
      exact Bool.of_not_eq_false fun isRoot => ends ⟨root, last, isRoot⟩

/-- **Arguments of a child.**  Where the parents of a child end at a bean without parent, its
merged definition has the child's argument at each of its indexes, and each content that the
child passes without index as often as the merged definition of the parent does, or once if that
does not.  So there are at least as many arguments as the child has indexes and different
contents.  A child that repeats no content has none of its arguments less often than it declares
it, and as many in total. -/
theorem merged_keeps_arguments {name : String} (own : b.definition.IsWellFormedDeep)
    (others : ∀ c ∈ ctx.allBeans, c.definition.IsWellFormedDeep) (parent : b.parent = some name)
    (last : (b :: ancestors ctx b).getLast? = some root) (isRoot : root.isChild = false) :
    ∃ p, ctx.resolve? name = some p ∧
      (∀ index a, b.definition.arguments.at? index = some a →
        (merged ctx b).arguments.at? index = some a) ∧
      (∀ a ∈ b.definition.arguments.generic,
        (merged ctx b).arguments.occurrences a
          = max ((merged ctx p).arguments.occurrences a) 1) ∧
      b.definition.arguments.indexed.length + b.definition.arguments.contents.length
        ≤ (merged ctx b).arguments.size ∧
      (b.definition.arguments.generic.Pairwise (fun x y => x.sameContent y = false) →
        (∀ a, b.definition.arguments.occurrences a ≤ (merged ctx b).arguments.occurrences a) ∧
        b.definition.arguments.size ≤ (merged ctx b).arguments.size) := by
  have ends := lastParent_eq_none_iff.2 ⟨root, last, isRoot⟩
  obtain ⟨p, found, chain⟩ := ancestors_eq_ancestors_parent parent ends
  have inherited : (merged ctx p).IsWellFormedDeep :=
    isWellFormedDeep_merged (others p (Context.resolve?_mem found)) others
  have occurrences : ∀ a, (merged ctx b).arguments.occurrences a
      = max ((merged ctx p).arguments.occurrences a)
          (min 1 (b.definition.arguments.occurrences a)) := by
    intro a
    rw [merged_eq_merged_parent chain ends]
    exact Arguments.occurrences_overrideWith own.generic
  have size : b.definition.arguments.indexed.length + b.definition.arguments.contents.length
      ≤ (merged ctx b).arguments.size := by
    rw [merged_eq_merged_parent chain ends]
    exact Definition.length_add_length_le_size inherited own
  refine ⟨p, found, ?_, ?_, size, ?_⟩
  · intro index a passed
    rw [merged_eq_merged_parent chain ends,
      Definition.at?_overrideWith inherited.tables own.tables, passed]
    rfl
  · intro a passed
    have there := Arguments.occurrences_pos own.generic passed
    rw [occurrences]
    omega
  · intro once
    have contents : b.definition.arguments.contents = b.definition.arguments.generic := by
      show _ = [] ++ b.definition.arguments.generic
      exact Keyed.foldl_addUnlessCovered_of_pairwise once
    refine ⟨fun a => ?_, ?_⟩
    · have atMost := Arguments.occurrences_le_one (a := a) own.generic once
      rw [occurrences]
      omega
    · rw [contents] at size
      exact size

/-! ### A repeated argument -/

/-- An argument that passes a text. -/
def passText (text : String) (line : Nat) : Argument (Value Declaration) :=
  { value := .literal text none, location := .atLine "beans.xml" line }

theorem isWellFormed_passText (text : String) (line : Nat) :
    (passText text line).value.IsWellFormed :=
  ⟨nofun, nofun⟩

theorem sameContent_passText (text other : String) (line line' : Nat) :
    (passText text line).sameContent (passText other line') = decide (text = other) := by
  rw [Bool.eq_iff_iff, Argument.sameContent_iff]
  simp [passText, Value.same]

/-- The arguments of a parent. -/
def inheritedTexts : Arguments (Value Declaration) :=
  ⟨[(0, passText "i" 2)], [passText "x" 3]⟩

/-- The arguments of a child, which repeat one that it inherits. -/
def repeatedTexts : Arguments (Value Declaration) :=
  ⟨[(0, passText "j" 6)], [passText "x" 7, passText "x" 8, passText "y" 9]⟩

/-- A bean `leaf` that passes one text twice, which its parent `base` passes as well. -/
def repeatedArguments : Context :=
  let base : Definition (Value Declaration) :=
    { className := some "Foo", arguments := inheritedTexts, location := .atLine "beans.xml" 1 }
  let leaf : Definition (Value Declaration) :=
    { parent := some "base", arguments := repeatedTexts, location := .atLine "beans.xml" 5 }
  { name := "beans.xml"
    kind := .config
    beans := [.named "beans.xml" ⟨"base", [], base⟩, .named "beans.xml" ⟨"leaf", [], leaf⟩] }

theorem isWellFormedDeep_repeatedArguments :
    ∀ c ∈ repeatedArguments.allBeans, c.definition.IsWellFormedDeep := by
  intro c hc
  simp only [Context.allBeans, repeatedArguments, beansOfComponents, List.append_nil,
    List.mem_cons, List.not_mem_nil, or_false] at hc
  rcases hc with rfl | rfl
  · refine ⟨by decide, ?_⟩
    simp [Bean.definition, Bean.named, Definition.values, Arguments.values, inheritedTexts,
      isWellFormed_passText]
  · refine ⟨by decide, ?_⟩
    simp [Bean.definition, Bean.named, Definition.values, Arguments.values, repeatedTexts,
      isWellFormed_passText]

theorem leaf_of_repeatedArguments :
    ∃ leaf base, leaf ∈ repeatedArguments.allBeans ∧
      repeatedArguments.resolve? "leaf" = some leaf ∧
      repeatedArguments.resolve? "base" = some base ∧ leaf.parent = some "base" ∧
      ancestors repeatedArguments leaf = [base] ∧ base.isChild = false ∧
      leaf.definition.arguments = repeatedTexts ∧
      (merged repeatedArguments base).arguments = inheritedTexts ∧
      (merged repeatedArguments leaf).arguments = inheritedTexts.overrideWith repeatedTexts :=
  ⟨_, _, .tail _ (.head _), rfl, rfl, rfl, rfl, rfl, rfl, rfl, rfl⟩

/-- The merged definition of `leaf` has the index of `leaf`, and the two contents once each. -/
theorem merged_keeps_arguments_of_leaf :
    ∃ leaf, repeatedArguments.resolve? "leaf" = some leaf ∧
      leaf.definition.arguments = repeatedTexts ∧
      (merged repeatedArguments leaf).arguments.at? 0 = some (0, passText "j" 6) ∧
      (merged repeatedArguments leaf).arguments.occurrences (passText "x" 7) = 1 ∧
      (merged repeatedArguments leaf).arguments.occurrences (passText "y" 9) = 1 ∧
      3 ≤ (merged repeatedArguments leaf).arguments.size := by
  obtain ⟨leaf, base, there, found, foundBase, parent, line, isRoot, own, inherited, -⟩ :=
    leaf_of_repeatedArguments
  have deep := isWellFormedDeep_repeatedArguments
  have last : (leaf :: ancestors repeatedArguments leaf).getLast? = some base := by
    rw [line]
    rfl
  obtain ⟨p, isBase, indexed, generic, size, -⟩ :=
    merged_keeps_arguments (deep leaf there) deep parent last isRoot
  cases foundBase.symm.trans isBase
  rw [own] at indexed generic size
  rw [inherited] at generic
  refine ⟨leaf, found, own, indexed 0 _ rfl, ?_, ?_, ?_⟩
  · rw [generic _ (by simp [repeatedTexts])]
    simp [Arguments.occurrences, inheritedTexts, sameContent_passText]
  · rw [generic _ (by simp [repeatedTexts])]
    simp [Arguments.occurrences, inheritedTexts, sameContent_passText]
  · simpa [Arguments.contents, Arguments.addDistinct, repeatedTexts, sameContent_passText]
      using size

/-- The bean `leaf` passes a text twice which comes once in its merged definition, and so its
merged definition has fewer arguments than the bean itself, though its parent is a root. -/
theorem merged_drops_repeated_argument :
    ∃ leaf base x, repeatedArguments.resolve? "leaf" = some leaf ∧
      leaf.parent = some "base" ∧ ancestors repeatedArguments leaf = [base] ∧
      base.isChild = false ∧ leaf.definition.IsWellFormedDeep ∧
      x ∈ leaf.definition.arguments.generic ∧
      leaf.definition.arguments.occurrences x = 2 ∧
      (merged repeatedArguments leaf).arguments.occurrences x = 1 ∧
      leaf.definition.arguments.size = 4 ∧ (merged repeatedArguments leaf).arguments.size = 3 := by
  obtain ⟨leaf, base, there, found, -, parent, line, isRoot, own, -, merges⟩ :=
    leaf_of_repeatedArguments
  have deep := isWellFormedDeep_repeatedArguments leaf there
  have result : (inheritedTexts.overrideWith repeatedTexts).generic
      = [passText "x" 3, passText "y" 9] := by
    simp [Arguments.overrideWith, Arguments.addDistinct, inheritedTexts, repeatedTexts,
      sameContent_passText]
  refine ⟨leaf, base, passText "x" 7, found, parent, line, isRoot, deep, ?_, ?_, ?_, ?_, ?_⟩
  · simp [own, repeatedTexts]
  · simp [own, Arguments.occurrences, repeatedTexts, sameContent_passText]
  · simp [merges, Arguments.occurrences, result, sameContent_passText]
  · rw [own]
    rfl
  · rw [merges, Arguments.size, result]
    rfl

end BeanWiring
