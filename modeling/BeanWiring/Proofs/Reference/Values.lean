/-
# What values mention

The names that a value mentions and the beans nested in it, told by the list of all values that
occur in it.  A nested bean is one of them, but nothing inside it is.

Turning a declared value into one of the model gives its nested beans an identity and changes
nothing else.  Reading a value as a list of interceptor names is another matter: of a list, only
the literals are read then.

Main statements:

* `referencedNames_eq_filterMap`, `inner_eq_filterMap` : names and nested beans are those of the
  values that occur, in order;
* `resolveValue_keeps_references` : what a declared value mentions, its value in the model does;
* `interceptorNames_superset_iff` : which values lose no name as an interceptor list.
-/
import BeanWiring.Reference.Named

namespace BeanWiring

namespace Value

variable {B C : Type}

/-! ## The values that occur in a value -/

/-- The bean that a value is, if it is one. -/
def nested? : Value B → Option B
  | nested bean => some bean
  | _ => none

mutual

/-- The values that occur in a value, nested beans not entered: the value itself, and then those
of its parts in order. -/
def occurring : Value B → List (Value B)
  | .list items => .list items :: occurringInItems items
  | .set items => .set items :: occurringInItems items
  | .map entries => .map entries :: occurringInEntries entries
  | .literal text type => [.literal text type]
  | .reference bean toParent => [.reference bean toParent]
  | .nameReference bean => [.nameReference bean]
  | .nested bean => [.nested bean]
  | .properties entries => [.properties entries]
  | .null => [.null]

/-- The values that occur in a list of values. -/
def occurringInItems : List (Value B) → List (Value B)
  | [] => []
  | v :: vs => occurring v ++ occurringInItems vs

/-- The values that occur in map entries, those in a key before those in its value. -/
def occurringInEntries : List (Value B × Value B) → List (Value B)
  | [] => []
  | (k, v) :: es => occurring k ++ occurring v ++ occurringInEntries es

end

mutual

/-- The names that a value mentions are those of the references that occur in it. -/
theorem referencedNames_eq_filterMap : (v : Value B) →
    v.referencedNames = v.occurring.filterMap referencedName?
  | .list items => namesOfItems_eq_filterMap items
  | .set items => namesOfItems_eq_filterMap items
  | .map entries => namesOfEntries_eq_filterMap entries
  | .literal _ _ => rfl
  | .reference _ _ => rfl
  | .nameReference _ => rfl
  | .nested _ => rfl
  | .properties _ => rfl
  | .null => rfl

theorem namesOfItems_eq_filterMap : (vs : List (Value B)) →
    namesOfItems vs = (occurringInItems vs).filterMap referencedName?
  | [] => rfl
  | v :: vs => by
    rw [namesOfItems, occurringInItems, List.filterMap_append, referencedNames_eq_filterMap v,
      namesOfItems_eq_filterMap vs]

theorem namesOfEntries_eq_filterMap : (es : List (Value B × Value B)) →
    namesOfEntries es = (occurringInEntries es).filterMap referencedName?
  | [] => rfl
  | (k, v) :: es => by
    rw [namesOfEntries, occurringInEntries, List.filterMap_append, List.filterMap_append,
      referencedNames_eq_filterMap k, referencedNames_eq_filterMap v,
      namesOfEntries_eq_filterMap es]

end

mutual

/-- The beans nested in a value are those that occur in it. -/
theorem inner_eq_filterMap : (v : Value B) → v.inner = v.occurring.filterMap nested?
  | .list items => innerOfItems_eq_filterMap items
  | .set items => innerOfItems_eq_filterMap items
  | .map entries => innerOfEntries_eq_filterMap entries
  | .literal _ _ => rfl
  | .reference _ _ => rfl
  | .nameReference _ => rfl
  | .nested _ => rfl
  | .properties _ => rfl
  | .null => rfl

theorem innerOfItems_eq_filterMap : (vs : List (Value B)) →
    innerOfItems vs = (occurringInItems vs).filterMap nested?
  | [] => rfl
  | v :: vs => by
    rw [innerOfItems, occurringInItems, List.filterMap_append, inner_eq_filterMap v,
      innerOfItems_eq_filterMap vs]

theorem innerOfEntries_eq_filterMap : (es : List (Value B × Value B)) →
    innerOfEntries es = (occurringInEntries es).filterMap nested?
  | [] => rfl
  | (k, v) :: es => by
    rw [innerOfEntries, occurringInEntries, List.filterMap_append, List.filterMap_append,
      inner_eq_filterMap k, inner_eq_filterMap v, innerOfEntries_eq_filterMap es]

end

/-- A name that a value mentions is that of a reference that occurs in it. -/
theorem mem_referencedNames_iff {v : Value B} {name : String} :
    name ∈ v.referencedNames ↔ ∃ u ∈ v.occurring, u.referencedName? = some name := by
  rw [referencedNames_eq_filterMap, List.mem_filterMap]

/-! ## Declared values -/

/-- **Resolving.**  The value of the model that a declared value becomes refers to the names that
the declared value mentions, as often and in the same order, which are those of the references
that occur in it.  Its inner beans are the declarations that occur in it, in order, and each is
identified by the owner and the line it starts on. -/
theorem resolveValue_keeps_references (owner : BeanId) (raw : Value Declaration) :
    ((Bean.resolveValue owner raw).namedReferences false).map NamedReference.beanName
        = raw.referencedNames ∧
      raw.referencedNames = raw.occurring.filterMap referencedName? ∧
      (Bean.resolveValue owner raw).inner.map Bean.declaration
        = raw.occurring.filterMap nested? ∧
      ∀ b ∈ (Bean.resolveValue owner raw).inner,
        b.id = .inner owner b.declaration.startLine ∧ b.isInner = true := by
  have inner : (Bean.resolveValue owner raw).inner
      = (raw.occurring.filterMap nested?).map (Declaration.innerBean owner) := by
    rw [Bean.resolveValue, inner_mapInner, inner_eq_filterMap]
  refine ⟨?_, referencedNames_eq_filterMap raw, ?_, ?_⟩
  · rw [map_beanName_namedReferences, Bean.resolveValue, referencedNames_mapInner]
  · -- An inner bean keeps the declaration that it is made from.
    rw [inner, List.map_map]
    exact List.map_id _
  · intro b nested
    rw [inner] at nested
    obtain ⟨d, -, rfl⟩ := List.mem_map.1 nested
    exact ⟨rfl, rfl⟩

/-! ## Interceptor lists -/

/-- The names that a value refers to, as an interceptor list or not. -/
def namesAs (interceptorList : Bool) (v : Value B) : List String :=
  (v.namedReferences interceptorList).map NamedReference.beanName

theorem mem_namesAs_list_iff {items : List (Value B)} {name : String} :
    name ∈ namesAs true (.list items) ↔ ∃ item ∈ items, item.text? = some name := by
  have literals : namesAs true (.list items) = items.filterMap text? := by
    rw [namesAs, namedReferences, if_pos rfl, List.map_map]
    exact List.map_id _
  rw [literals, List.mem_filterMap]

/-- **Interceptors.**  Read as an interceptor list, a value that is no list refers to what it
refers to anyway, and a list to its literals.  So no name is lost exactly if the value is no list,
or one whose literals include every name that is mentioned anywhere in it. -/
theorem interceptorNames_superset_iff (v : Value B) :
    (∀ name, name ∈ v.namesAs true ↔
      (∃ items, v = .list items ∧ ∃ item ∈ items, item.text? = some name) ∨
        (∀ items, v ≠ .list items) ∧ name ∈ v.namesAs false) ∧
    (v.namesAs false ⊆ v.namesAs true ↔
      ∀ items, v = .list items → ∀ u ∈ v.occurring, ∀ name, u.referencedName? = some name →
        ∃ item ∈ items, item.text? = some name) := by
  have mentioned : ∀ {name}, name ∈ v.namesAs false ↔
      ∃ u ∈ v.occurring, u.referencedName? = some name := by
    intro name
    rw [namesAs, map_beanName_namedReferences, mem_referencedNames_iff]
  cases v with
  | list items =>
    refine ⟨fun name => ?_, ?_⟩
    · rw [mem_namesAs_list_iff]
      constructor
      · exact fun literal => .inl ⟨items, rfl, literal⟩
      · rintro (⟨_, ⟨⟩, literal⟩ | ⟨other, -⟩)
        · exact literal
        · exact absurd rfl (other items)
    · constructor
      · rintro subset _ ⟨⟩ u occurs name named
        exact mem_namesAs_list_iff.1 (subset (mentioned.2 ⟨u, occurs, named⟩))
      · intro covered name there
        obtain ⟨u, occurs, named⟩ := mentioned.1 there
        exact mem_namesAs_list_iff.2 (covered items rfl u occurs name named)
  | literal | reference | nameReference | nested | set | map | properties | null =>
    constructor
    · intro name
      constructor
      · exact fun there => .inr ⟨nofun, there⟩
      · rintro (⟨_, ⟨⟩, -⟩ | ⟨-, there⟩)
        exact there
    · exact ⟨fun _ => nofun, fun _ => List.Subset.refl _⟩

example : (list [reference "advice" false, literal "audit" none] : Value Bean).namesAs false
    = ["advice"] := rfl

example : (list [reference "advice" false, literal "audit" none] : Value Bean).namesAs true
    = ["audit"] := rfl

end Value

end BeanWiring
