/-
# Beans

A bean of the model: a declaration together with its identity.  Its arguments and
properties hold values in which nested declarations have become inner beans,
identified by their owner.

`Nest` is a bean with the inner beans below it as a tree; every walk over inner beans
at any depth is a recursion on it.  Main statements: `nest_eq`, which says that the
subtrees of a bean are the nests of its inner beans, and `inner_induction`.
-/
import BeanWiring.Bean.Id
import BeanWiring.Definition.Value

namespace BeanWiring

/-- A declared bean. -/
structure Bean where
  id : BeanId
  declaration : Declaration
  isInner : Bool

/-! ## Declared facts -/

namespace Declaration

/-- The line on which the bean starts. -/
def startLine (d : Declaration) : Nat := d.definition.location.startLine

/-- The bean that a declaration nested in `owner` describes. -/
def innerBean (owner : BeanId) (d : Declaration) : Bean :=
  ⟨.inner owner d.startLine, d, true⟩

end Declaration

namespace Bean

/-- A bean registered under a name of its own. -/
def named (resource : String) (d : Declaration) : Bean :=
  ⟨.named resource d.name, d, false⟩

/-- The definition as declared. -/
def definition (b : Bean) : Definition (Value Declaration) := b.declaration.definition

/-- The name of the bean. -/
def name (b : Bean) : String := b.declaration.name

/-- The further names that the bean declares. -/
def aliases (b : Bean) : List String := b.declaration.aliases

/-- The class that the bean itself declares. -/
def className (b : Bean) : Option String := b.definition.className

/-- The name of the parent. -/
def parent (b : Bean) : Option String := b.definition.parent

/-- Whether the bean inherits from a parent. -/
def isChild (b : Bean) : Bool := b.definition.isChild

/-- Whether the bean is only there to be inherited from. -/
def isAbstract (b : Bean) : Bool := b.definition.isAbstract

/-- Whether the bean is internal to a framework. -/
def isInfrastructure (b : Bean) : Bool := b.definition.isInfrastructure

/-- Where the bean is declared. -/
def location (b : Bean) : Location := b.definition.location

/-- The resource of the bean. -/
def resource (b : Bean) : String := b.id.resource

/-- The line on which the bean starts. -/
def startLine (b : Bean) : Nat := b.location.startLine

/-! ## Values -/

/-- A declared value with its nested declarations turned into inner beans of `owner`. -/
def resolveValue (owner : BeanId) (v : Value Declaration) : Value Bean :=
  v.mapInner (Declaration.innerBean owner)

/-- The constructor arguments with their indexes, in the order of `Arguments.toList`. -/
def arguments (b : Bean) : List (Option Nat × Argument (Value Bean)) :=
  b.definition.arguments.toList.map fun p =>
    (p.1, { p.2 with value := resolveValue b.id p.2.value })

/-- The properties in order of declaration. -/
def properties (b : Bean) : List (Property (Value Bean)) :=
  b.definition.properties.map fun p => { p with value := resolveValue b.id p.value }

/-- The property of a name. -/
def property? (b : Bean) (name : String) : Option (Property (Value Bean)) :=
  Keyed.get? Property.name name b.properties

/-- The method overrides, each once. -/
def overrides (b : Bean) : List MethodOverride :=
  Keyed.distinct b.definition.overrides

/-- The beans nested directly in the arguments and then in the properties. -/
def inner (b : Bean) : List Bean :=
  b.definition.values.flatMap fun v => (resolveValue b.id v).inner

/-- The bean reached by positions: each of them picks an inner bean of the one before. -/
def innerAt? (b : Bean) : (positions : List Nat) → Option Bean
  | [] => some b
  | i :: rest =>
    match b.inner[i]? with
    | some next => next.innerAt? rest
    | none => none

/-- The constructor argument declared first in the source. -/
def firstArgument? (b : Bean) : Option (Option Nat × Argument (Value Bean)) :=
  b.arguments.foldl (fun best p =>
    match best with
    | none => some p
    | some q => if p.2.location.startLine < q.2.location.startLine then some p else some q) none

/-- What stands for a bean nested in a displayed value: its class, or else its parent. -/
def label (b : Bean) : String :=
  match b.className with
  | some className => "bean [" ++ className ++ "]"
  | none => "bean <" ++ b.parent.getD "" ++ ">"

end Bean

/-- The short form of a value of the model. -/
def Value.name (v : Value Bean) : String := v.display Bean.label

/-! ## Beans within beans -/

/-- A bean with the trees of its inner beans. -/
inductive Nest where
  | node (bean : Bean) (inner : List Nest)

namespace Nest

/-- The trees below the root. -/
def inner : Nest → List Nest
  | node _ inner => inner

mutual

/-- The root, then the trees below it from left to right. -/
def preorder : Nest → List Bean
  | node bean inner => bean :: preorderAll inner

/-- The beans of a list of trees. -/
def preorderAll : List Nest → List Bean
  | [] => []
  | n :: ns => preorder n ++ preorderAll ns

end

theorem preorderAll_eq_flatMap (ns : List Nest) : preorderAll ns = ns.flatMap preorder := by
  induction ns with
  | nil => rfl
  | cons n ns ih => simp [preorderAll, ih]

end Nest

mutual

/-- The tree of a declaration that describes a bean of identity `id`. -/
def Declaration.nest (id : BeanId) (isInner : Bool) : Declaration → Nest
  | ⟨name, aliases, ⟨f₁, f₂, f₃, f₄, f₅, f₆, f₇, f₈, f₉, f₁₀, f₁₁, f₁₂, f₁₃,
      ⟨indexed, generic⟩, properties, f₁₄, f₁₅⟩⟩ =>
    .node ⟨id, ⟨name, aliases, ⟨f₁, f₂, f₃, f₄, f₅, f₆, f₇, f₈, f₉, f₁₀, f₁₁, f₁₂, f₁₃,
        ⟨indexed, generic⟩, properties, f₁₄, f₁₅⟩⟩, isInner⟩
      (nestIndexed id indexed ++ nestGeneric id generic ++ nestProperties id properties)

/-- The trees nested in arguments that have an index. -/
def nestIndexed (owner : BeanId) : List (Nat × Argument (Value Declaration)) → List Nest
  | [] => []
  | (_, ⟨_, _, value, _⟩) :: rest => nestValue owner value ++ nestIndexed owner rest

/-- The trees nested in arguments without index. -/
def nestGeneric (owner : BeanId) : List (Argument (Value Declaration)) → List Nest
  | [] => []
  | ⟨_, _, value, _⟩ :: rest => nestValue owner value ++ nestGeneric owner rest

/-- The trees nested in properties. -/
def nestProperties (owner : BeanId) : List (Property (Value Declaration)) → List Nest
  | [] => []
  | ⟨_, value, _⟩ :: rest => nestValue owner value ++ nestProperties owner rest

/-- The trees nested in a value. -/
def nestValue (owner : BeanId) : Value Declaration → List Nest
  | .nested d => [d.nest (.inner owner d.startLine) true]
  | .list items => nestItems owner items
  | .set items => nestItems owner items
  | .map entries => nestEntries owner entries
  | .literal _ _ => []
  | .reference _ _ => []
  | .nameReference _ => []
  | .properties _ => []
  | .null => []

/-- The trees nested in a list of values. -/
def nestItems (owner : BeanId) : List (Value Declaration) → List Nest
  | [] => []
  | v :: vs => nestValue owner v ++ nestItems owner vs

/-- The trees nested in map entries. -/
def nestEntries (owner : BeanId) : List (Value Declaration × Value Declaration) → List Nest
  | [] => []
  | (k, v) :: es => nestValue owner k ++ nestValue owner v ++ nestEntries owner es

end

namespace Bean

/-- A bean with everything nested in it. -/
def nest (b : Bean) : Nest := b.declaration.nest b.id b.isInner

/-- The inner beans at any depth, each before those nested in it. -/
def innerDeep (b : Bean) : List Bean := Nest.preorderAll b.nest.inner

end Bean

/-! ## The tree of a bean -/

mutual

/-- The nest of a value is made of the inner beans of the resolved value. -/
theorem nestValue_eq (owner : BeanId) : (v : Value Declaration) →
    nestValue owner v = (Bean.resolveValue owner v).inner.map Bean.nest
  | .nested _ => rfl
  | .list items => nestItems_eq owner items
  | .set items => nestItems_eq owner items
  | .map entries => nestEntries_eq owner entries
  | .literal _ _ => rfl
  | .reference _ _ => rfl
  | .nameReference _ => rfl
  | .properties _ => rfl
  | .null => rfl

/-- The nests of items are made of the inner beans of the resolved items. -/
theorem nestItems_eq (owner : BeanId) : (vs : List (Value Declaration)) →
    nestItems owner vs
      = (Value.innerOfItems (Value.mapInnerItems (Declaration.innerBean owner) vs)).map Bean.nest
  | [] => rfl
  | v :: vs => by
    simp [nestItems, Value.mapInnerItems, Value.innerOfItems, nestValue_eq owner v,
      nestItems_eq owner vs, Bean.resolveValue]

/-- The nests of entries are made of the inner beans of the resolved entries. -/
theorem nestEntries_eq (owner : BeanId) : (es : List (Value Declaration × Value Declaration)) →
    nestEntries owner es
      = (Value.innerOfEntries
          (Value.mapInnerEntries (Declaration.innerBean owner) es)).map Bean.nest
  | [] => rfl
  | (k, v) :: es => by
    simp [nestEntries, Value.mapInnerEntries, Value.innerOfEntries, nestValue_eq owner k,
      nestValue_eq owner v, nestEntries_eq owner es, Bean.resolveValue]

end

theorem nestIndexed_eq (owner : BeanId) (args : List (Nat × Argument (Value Declaration))) :
    nestIndexed owner args = args.flatMap fun p => nestValue owner p.2.value := by
  induction args with
  | nil => rfl
  | cons p rest ih => simp [nestIndexed, ih]

theorem nestGeneric_eq (owner : BeanId) (args : List (Argument (Value Declaration))) :
    nestGeneric owner args = args.flatMap fun a => nestValue owner a.value := by
  induction args with
  | nil => rfl
  | cons a rest ih => simp [nestGeneric, ih]

theorem nestProperties_eq (owner : BeanId) (ps : List (Property (Value Declaration))) :
    nestProperties owner ps = ps.flatMap fun p => nestValue owner p.value := by
  induction ps with
  | nil => rfl
  | cons p rest ih => simp [nestProperties, ih]

namespace Bean

/-- The subtrees of a bean are the nests of its inner beans. -/
theorem nest_eq (b : Bean) : b.nest = .node b (b.inner.map nest) := by
  obtain ⟨id, ⟨name, aliases, ⟨_, _, _, _, _, _, _, _, _, _, _, _, _, ⟨indexed, generic⟩,
    properties, _, _⟩⟩, isInner⟩ := b
  simp only [nest, Declaration.nest, definition, nestIndexed_eq, nestGeneric_eq,
    nestProperties_eq, nestValue_eq, inner, Definition.values, Arguments.values,
    List.map_flatMap, List.flatMap_append, List.flatMap_map, List.map_append]

/-- What holds of each bean as soon as it holds of its inner beans holds of every bean. -/
@[elab_as_elim]
theorem inner_induction {motive : Bean → Prop}
    (step : ∀ b, (∀ i ∈ b.inner, motive i) → motive b) (b : Bean) : motive b :=
  step b fun i _ => inner_induction step i
termination_by sizeOf b.nest
decreasing_by
  rename_i direct
  have smaller := List.sizeOf_lt_of_mem (List.mem_map_of_mem (f := nest) direct)
  rw [nest_eq b, Nest.node.sizeOf_spec]
  omega

/-- The inner beans at any depth are the direct ones, each followed by its own. -/
theorem innerDeep_eq (b : Bean) : b.innerDeep = b.inner.flatMap fun i => i :: i.innerDeep := by
  rw [innerDeep, nest_eq, Nest.inner, Nest.preorderAll_eq_flatMap, List.flatMap_map]
  congr 1
  funext i
  rw [innerDeep, nest_eq, Nest.preorder, Nest.inner]

/-- The beans nested at any depth are the inner beans and those nested in them. -/
theorem mem_innerDeep_iff {b x : Bean} :
    x ∈ b.innerDeep ↔ ∃ i ∈ b.inner, x = i ∨ x ∈ i.innerDeep := by
  rw [innerDeep_eq, List.mem_flatMap]
  simp only [List.mem_cons]

/-- What is nested in a bean that is nested in another is nested in the other. -/
theorem innerDeep_trans {b i x : Bean} (within : i ∈ b.innerDeep) (deeper : x ∈ i.innerDeep) :
    x ∈ b.innerDeep := by
  induction b using inner_induction with
  | step b ih =>
    obtain ⟨j, direct, rfl | below⟩ := mem_innerDeep_iff.1 within
    · exact mem_innerDeep_iff.2 ⟨i, direct, .inr deeper⟩
    · exact mem_innerDeep_iff.2 ⟨j, direct, .inr (ih j direct below)⟩

end Bean

end BeanWiring
