/-
# Equal content

When two values, and so two arguments or two declarations, have the same content.
Everything is compared in order, source locations included, with one exception: the
properties of a bean are compared as a table, in any order.
-/
import BeanWiring.Definition.Basic

namespace BeanWiring

/-- A definition without its arguments and properties. -/
def Definition.shell {V : Type} (d : Definition V) : Definition Empty :=
  { className := d.className, parent := d.parent, scope := d.scope,
    isAbstract := d.isAbstract, lazyInit := d.lazyInit, autowire := d.autowire,
    dependencyCheck := d.dependencyCheck, role := d.role, dependsOn := d.dependsOn,
    factoryBean := d.factoryBean, factoryMethod := d.factoryMethod,
    initMethod := d.initMethod, destroyMethod := d.destroyMethod,
    overrides := d.overrides, location := d.location }

/-! ## Comparison of nested values -/

mutual

/-- Whether two declarations have the same names and the same definition. -/
def Declaration.same : Declaration → Declaration → Bool
  | ⟨name₁, aliases₁, d₁⟩, ⟨name₂, aliases₂, d₂⟩ =>
    name₁ = name₂ && aliases₁ = aliases₂ && sameDefinition d₁ d₂

/-- Whether two definitions agree in their flat fields, arguments and properties. -/
def sameDefinition : Definition (Value Declaration) → Definition (Value Declaration) → Bool
  | d₁@⟨_, _, _, _, _, _, _, _, _, _, _, _, _, ⟨indexed, generic⟩, properties, _, _⟩, d₂ =>
    d₁.shell = d₂.shell && sameIndexed indexed d₂.arguments.indexed &&
      sameGeneric generic d₂.arguments.generic &&
      properties.length = d₂.properties.length && sameProperties properties d₂.properties

/-- Whether two lists of indexed arguments agree. -/
def sameIndexed : List (Nat × Argument (Value Declaration)) →
    List (Nat × Argument (Value Declaration)) → Bool
  | [], [] => true
  | (i, ⟨type, name, value, location⟩) :: as, (j, b) :: bs =>
    i = j && type = b.typeName && name = b.name && value.same b.value &&
      location = b.location && sameIndexed as bs
  | _, _ => false

/-- Whether two lists of arguments without index agree. -/
def sameGeneric : List (Argument (Value Declaration)) → List (Argument (Value Declaration)) →
    Bool
  | [], [] => true
  | ⟨type, name, value, location⟩ :: as, b :: bs =>
    type = b.typeName && name = b.name && value.same b.value &&
      location = b.location && sameGeneric as bs
  | _, _ => false

/-- Whether each property of the first list has its equal in the second. -/
def sameProperties : List (Property (Value Declaration)) → List (Property (Value Declaration)) →
    Bool
  | [], _ => true
  | ⟨name, value, location⟩ :: ps, qs =>
    (match Keyed.get? Property.name name qs with
      | some q => value.same q.value && location = q.location
      | none => false) && sameProperties ps qs

/-- Whether two values have the same content. -/
def Value.same : Value Declaration → Value Declaration → Bool
  | .literal t₁ n₁, .literal t₂ n₂ => t₁ = t₂ && n₁ = n₂
  | .reference b₁ p₁, .reference b₂ p₂ => b₁ = b₂ && p₁ = p₂
  | .nameReference b₁, .nameReference b₂ => b₁ = b₂
  | .nested b₁, .nested b₂ => b₁.same b₂
  | .list xs, .list ys => sameItems xs ys
  | .set xs, .set ys => sameItems xs ys
  | .map xs, .map ys => sameEntries xs ys
  | .properties xs, .properties ys => xs = ys
  | .null, .null => true
  | _, _ => false

/-- Whether two lists of values agree. -/
def sameItems : List (Value Declaration) → List (Value Declaration) → Bool
  | [], [] => true
  | x :: xs, y :: ys => x.same y && sameItems xs ys
  | _, _ => false

/-- Whether two lists of map entries agree. -/
def sameEntries : List (Value Declaration × Value Declaration) →
    List (Value Declaration × Value Declaration) → Bool
  | [], [] => true
  | (k, v) :: xs, y :: ys => k.same y.1 && v.same y.2 && sameEntries xs ys
  | _, _ => false

end

instance : BEq (Value Declaration) := ⟨Value.same⟩

/-- Whether two arguments pass the same content, wherever they were written. -/
def Argument.sameContent {V : Type} [BEq V] (a b : Argument V) : Bool :=
  a.value == b.value && a.typeName = b.typeName && a.name = b.name

end BeanWiring
