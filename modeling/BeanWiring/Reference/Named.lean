/-
# Named references

The bean names that a value or a definition mentions, each with the kind of reference
it makes.  They are names only; looking them up comes later.

Main statement: `namedReferences_false`, that outside interceptor lists a value makes one
reference for each name that it mentions.
-/
import BeanWiring.Bean.Basic

namespace BeanWiring

/-- What a reference is for. -/
inductive ReferenceKind where
  /-- A value mentions another bean. -/
  | standard
  /-- A child names an ancestor. -/
  | parent
  /-- A bean is made by a factory bean. -/
  | factory
  | dependsOn
  /-- A bean supplies a method. -/
  | methodOverride
  /-- A literal in a list of interceptor names. -/
  | interceptor
deriving DecidableEq, Hashable

/-- The word for a kind of reference. -/
def ReferenceKind.name : ReferenceKind → String
  | standard => "standard"
  | parent => "parent"
  | factory => "factory"
  | dependsOn => "depends_on"
  | methodOverride => "method_override"
  | interceptor => "interceptor"

/-- A bean name with the kind of reference that it makes. -/
structure NamedReference where
  kind : ReferenceKind
  beanName : String
deriving DecidableEq

namespace Value

variable {B : Type}

mutual

/-- The references that a value makes by name, in order.  A list of interceptor names makes one
for each literal in it, and no others; only the value as a whole can be such a list. -/
def namedReferences (interceptorList : Bool) : Value B → List NamedReference
  | .reference bean _ => [⟨.standard, bean⟩]
  | .nameReference bean => [⟨.standard, bean⟩]
  | .list items =>
    if interceptorList then (items.filterMap text?).map (⟨.interceptor, ·⟩)
    else referencesOfItems items
  | .set items => referencesOfItems items
  | .map entries => referencesOfEntries entries
  | .literal _ _ => []
  | .nested _ => []
  | .properties _ => []
  | .null => []

/-- The references that a list of values makes by name. -/
def referencesOfItems : List (Value B) → List NamedReference
  | [] => []
  | v :: vs => namedReferences false v ++ referencesOfItems vs

/-- The references that map entries make by name, those of a key before those of its value. -/
def referencesOfEntries : List (Value B × Value B) → List NamedReference
  | [] => []
  | (k, v) :: es => namedReferences false k ++ namedReferences false v ++ referencesOfEntries es

end

mutual

/-- Outside interceptor lists, a value makes one reference for each name that it mentions. -/
theorem namedReferences_false : (v : Value B) →
    v.namedReferences false = v.referencedNames.map (⟨.standard, ·⟩)
  | .reference _ _ => rfl
  | .nameReference _ => rfl
  | .list items => referencesOfItems_eq items
  | .set items => referencesOfItems_eq items
  | .map entries => referencesOfEntries_eq entries
  | .literal _ _ => rfl
  | .nested _ => rfl
  | .properties _ => rfl
  | .null => rfl

theorem referencesOfItems_eq : (vs : List (Value B)) →
    referencesOfItems vs = (namesOfItems vs).map (⟨.standard, ·⟩)
  | [] => rfl
  | v :: vs => by
    rw [referencesOfItems, namesOfItems, List.map_append, namedReferences_false v,
      referencesOfItems_eq vs]

theorem referencesOfEntries_eq : (es : List (Value B × Value B)) →
    referencesOfEntries es = (namesOfEntries es).map (⟨.standard, ·⟩)
  | [] => rfl
  | (k, v) :: es => by
    rw [referencesOfEntries, namesOfEntries, List.map_append, List.map_append,
      namedReferences_false k, namedReferences_false v, referencesOfEntries_eq es]

end

/-- The references of a value are to names that it mentions or to names of interceptors. -/
theorem kind_of_mem_namedReferences {v : Value B} {interceptorList : Bool} {r : NamedReference}
    (h : r ∈ v.namedReferences interceptorList) : r.kind = .standard ∨ r.kind = .interceptor := by
  have mentioned : r ∈ v.namedReferences false → r.kind = .standard := by
    intro h
    rw [namedReferences_false] at h
    obtain ⟨_, -, rfl⟩ := List.mem_map.1 h
    rfl
  cases interceptorList with
  | false => exact .inl (mentioned h)
  | true =>
    cases v with
    | list items =>
      obtain ⟨_, -, rfl⟩ := List.mem_map.1 h
      exact .inr rfl
    -- Of the other values, none is an interceptor list.
    | literal | reference | nameReference | nested | set | map | properties | null =>
      exact .inl (mentioned h)

/-- Outside interceptor lists, the references are to the names that the value mentions. -/
theorem map_beanName_namedReferences (v : Value B) :
    (v.namedReferences false).map NamedReference.beanName = v.referencedNames := by
  rw [namedReferences_false, List.map_map]
  exact List.map_id _

end Value

/-- The references that a definition makes by name outside its values. -/
def Definition.namedReferences {V : Type} (d : Definition V) : List NamedReference :=
  d.factoryBean.toList.map (⟨.factory, ·⟩) ++ d.dependsOn.map (⟨.dependsOn, ·⟩) ++
    d.overrides.map (⟨.methodOverride, ·.bean⟩)

end BeanWiring
