/-
# Definitions laid over one another

A stack of definitions, the nearest first, laid over a root: the root is overridden by the
definition above it, the result by the next one, and so on.  Field by field this is a
search from the nearest definition down to the root:

* a scalar field has the value of the nearest definition that declares it;
* the beans depended on are the nearest list that is not empty;
* a property or an indexed argument is that of the nearest definition that declares one of
  its name or index, and each of them occurs once.

Main statement: `isFlattening_layered`, which says this for all fields at once.
-/
import BeanWiring.Definition.Override
import BeanWiring.Proofs.Keyed

namespace BeanWiring

variable {V : Type}

/-! ## Tables inside a definition -/

namespace Arguments

/-- The argument at an index, with its index. -/
def at? (args : Arguments V) (index : Nat) : Option (Nat × Argument V) :=
  Keyed.get? Prod.fst index args.indexed

/-- Indexed arguments in index order, at most one at each index. -/
def IsSorted (args : List (Nat × Argument V)) : Prop :=
  args.Pairwise fun p q => p.1 < q.1

instance (args : List (Nat × Argument V)) : Decidable (IsSorted args) :=
  inferInstanceAs (Decidable (args.Pairwise fun p q => p.1 < q.1))

theorem IsSorted.nodup {args : List (Nat × Argument V)} (h : IsSorted args) :
    (args.map Prod.fst).Nodup := by
  rw [List.Nodup, List.pairwise_map]
  apply List.Pairwise.imp _ h
  intro p q hpq
  omega

/-- An entry after a write is the one written or was there before. -/
theorem eq_or_mem_of_mem_insertAt {index : Nat} {a : Argument V} {args : List (Nat × Argument V)}
    {p : Nat × Argument V} (h : p ∈ insertAt index a args) : p = (index, a) ∨ p ∈ args := by
  induction args with
  | nil => exact Or.inl (List.mem_singleton.1 h)
  | cons q rest ih =>
    unfold insertAt at h
    split at h
    · exact List.mem_cons.1 h
    · split at h
      · exact (List.mem_cons.1 h).imp_right (List.mem_cons_of_mem _)
      · rcases List.mem_cons.1 h with rfl | h
        · exact Or.inr List.mem_cons_self
        · exact (ih h).imp_right (List.mem_cons_of_mem _)

/-- A write keeps the index order. -/
theorem isSorted_insertAt (index : Nat) (a : Argument V) {args : List (Nat × Argument V)}
    (sorted : IsSorted args) : IsSorted (insertAt index a args) := by
  induction args with
  | nil => exact List.pairwise_singleton _ _
  | cons p rest ih =>
    obtain ⟨first, later⟩ := List.pairwise_cons.1 sorted
    unfold insertAt
    split
    · rename_i below
      refine List.pairwise_cons.2 ⟨?_, sorted⟩
      intro q hq
      rcases List.mem_cons.1 hq with rfl | hq
      · exact below
      · have := first q hq
        show index < q.1
        omega
    · split
      · rename_i same
        refine List.pairwise_cons.2 ⟨?_, later⟩
        intro q hq
        have := first q hq
        show index < q.1
        omega
      · rename_i notBelow notSame
        refine List.pairwise_cons.2 ⟨?_, ih later⟩
        intro q hq
        rcases eq_or_mem_of_mem_insertAt hq with rfl | h
        · show p.1 < index
          omega
        · exact first q h

/-- Many writes keep the index order. -/
theorem isSorted_foldl_insertAt (ps : List (Nat × Argument V)) {args : List (Nat × Argument V)}
    (sorted : IsSorted args) :
    IsSorted (ps.foldl (fun args p => insertAt p.1 p.2 args) args) := by
  induction ps generalizing args with
  | nil => exact sorted
  | cons p ps ih => exact ih (isSorted_insertAt p.1 p.2 sorted)

/-- After many writes an index has the argument written there, or else the one before. -/
theorem get?_foldl_insertAt (ps : List (Nat × Argument V)) {args : List (Nat × Argument V)}
    (sorted : IsSorted args) (distinct : (ps.map Prod.fst).Nodup) (index : Nat) :
    Keyed.get? Prod.fst index (ps.foldl (fun args p => insertAt p.1 p.2 args) args)
      = (Keyed.get? Prod.fst index ps).or (Keyed.get? Prod.fst index args) := by
  induction ps generalizing args with
  | nil => simp [Keyed.get?]
  | cons p ps ih =>
    rw [List.map_cons, List.nodup_cons] at distinct
    rw [List.foldl_cons, ih (isSorted_insertAt p.1 p.2 sorted) distinct.2,
      get?_insertAt p.1 index p.2 args sorted]
    by_cases h : p.1 = index
    · have later : Keyed.get? Prod.fst index ps = none :=
        Keyed.get?_eq_none_of_not_mem (h ▸ distinct.1)
      rw [later, if_pos h, ← h]
      simp [Keyed.get?]
    · rw [if_neg h]
      simp [Keyed.get?, h]

end Arguments

namespace Definition

/-- A definition whose tables have one entry for each key: no two properties share their
name, and the indexed arguments stand in index order. -/
structure IsWellFormed (d : Definition V) : Prop where
  properties : (d.properties.map Property.name).Nodup
  indexed : Arguments.IsSorted d.arguments.indexed

instance (d : Definition V) : Decidable d.IsWellFormed :=
  decidable_of_iff
    ((d.properties.map Property.name).Nodup ∧ Arguments.IsSorted d.arguments.indexed)
    ⟨fun h => ⟨h.1, h.2⟩, fun h => ⟨h.properties, h.indexed⟩⟩

theorem IsWellFormed.addProperty {d : Definition V} (h : d.IsWellFormed) (p : Property V) :
    (d.addProperty p).IsWellFormed := by
  refine ⟨?_, h.indexed⟩
  show ((Keyed.putAll Property.name [p] d.properties).map Property.name).Nodup
  rw [Keyed.keys_putAll _ _ _ h.properties]
  exact Keyed.nodup_distinct _

theorem IsWellFormed.addArgument {d : Definition V} (h : d.IsWellFormed) (index : Option Nat)
    (a : Argument V) : { d with arguments := d.arguments.add index a }.IsWellFormed := by
  refine ⟨h.properties, ?_⟩
  cases index with
  | none => exact h.indexed
  | some i => exact Arguments.isSorted_insertAt i a h.indexed

end Definition

/-! ## One layer -/

namespace Definition

variable [BEq V]

/-- The list of beans depended on, if it declares any. -/
def dependencies? (d : Definition V) : Option (List String) :=
  some d.dependsOn |>.filter (!·.isEmpty)

omit [BEq V] in
theorem dependsOn_eq (d : Definition V) : d.dependsOn = d.dependencies?.getD [] := by
  cases h : d.dependsOn <;> simp [dependencies?, h, Option.filter]

theorem dependencies?_overrideWith (base other : Definition V) :
    (base.overrideWith other).dependencies? = other.dependencies?.or base.dependencies? := by
  unfold dependencies?
  cases h : other.dependsOn.isEmpty <;> simp [overrideWith, h, Option.filter]

/-- The property names of a layer are those below it, then the names that it adds. -/
theorem propertyNames_overrideWith {base : Definition V} (other : Definition V)
    (h : (base.properties.map Property.name).Nodup) :
    (base.overrideWith other).properties.map Property.name
      = Keyed.distinct (base.properties.map Property.name
          ++ other.properties.map Property.name) :=
  Keyed.keys_putAll Property.name other.properties base.properties h

/-- A layer keeps tables well-formed. -/
theorem IsWellFormed.overrideWith {base : Definition V} (h : base.IsWellFormed)
    (other : Definition V) : (base.overrideWith other).IsWellFormed := by
  refine ⟨?_, Arguments.isSorted_foldl_insertAt _ h.indexed⟩
  rw [propertyNames_overrideWith other h.properties]
  exact Keyed.nodup_distinct _

/-- An index of a layer has the argument of the upper definition, or else the lower one's. -/
theorem at?_overrideWith {base other : Definition V} (hb : base.IsWellFormed)
    (ho : other.IsWellFormed) (index : Nat) :
    (base.overrideWith other).arguments.at? index
      = (other.arguments.at? index).or (base.arguments.at? index) :=
  Arguments.get?_foldl_insertAt _ hb.indexed ho.indexed.nodup index

/-! ## Many layers -/

/-- A root with definitions laid over it, of which the nearest comes first. -/
def layered (upper : List (Definition V)) (root : Definition V) : Definition V :=
  upper.foldr (fun d base => base.overrideWith d) root

theorem isWellFormed_layered {root : Definition V} (h : root.IsWellFormed)
    (upper : List (Definition V)) : (layered upper root).IsWellFormed := by
  induction upper with
  | nil => exact h
  | cons d upper ih => exact ih.overrideWith d

/-- A field that each layer takes from the upper definition where that declares it, by way of
`declared`, is searched for from the nearest definition down to the root. -/
theorem layered_eq_findSome? {α : Type} (field declared : Definition V → Option α)
    {root : Definition V} {upper : List (Definition V)}
    (step : ∀ d ∈ upper, ∀ lower,
      field ((layered lower root).overrideWith d) = (declared d).or (field (layered lower root))) :
    field (layered upper root) = (upper.findSome? declared).or (field root) := by
  induction upper with
  | nil => rfl
  | cons d upper ih =>
    have below := ih fun e he => step e (List.mem_cons_of_mem _ he)
    show field ((layered upper root).overrideWith d) = _
    rw [step d List.mem_cons_self, below, List.findSome?_cons]
    cases declared d <;> rfl

/-- The same for a field that the root declares like all others. -/
theorem layered_eq_findSome?_append {α : Type} (field : Definition V → Option α)
    {root : Definition V} {upper : List (Definition V)}
    (step : ∀ d ∈ upper, ∀ lower,
      field ((layered lower root).overrideWith d) = (field d).or (field (layered lower root))) :
    field (layered upper root) = (upper ++ [root]).findSome? field := by
  rw [layered_eq_findSome? field field step, List.findSome?_append]
  congr 1
  cases h : field root <;> simp [h]

/-- The property names of a stack stand in the order of first declaration, from the root. -/
theorem propertyNames_layered {root : Definition V} (h : root.IsWellFormed)
    (upper : List (Definition V)) :
    (layered upper root).properties.map Property.name
      = Keyed.distinct ((upper ++ [root]).reverse.flatMap
          fun d => d.properties.map Property.name) := by
  induction upper with
  | nil => simp [layered, Keyed.distinct_of_nodup h.properties]
  | cons d upper ih =>
    show ((layered upper root).overrideWith d).properties.map Property.name = _
    rw [propertyNames_overrideWith d (isWellFormed_layered h upper).properties, ih,
      Keyed.distinct_distinct_append, List.cons_append, List.reverse_cons,
      List.flatMap_append, List.flatMap_singleton]

/-! ## All fields at once -/

/-- `d` is what the definitions of a line of inheritance come to, the nearest first and the
root last. -/
structure IsFlattening (line : List (Definition V)) (root d : Definition V) : Prop where
  className : d.className = line.findSome? Definition.className
  lazyInit : d.lazyInit = line.findSome? Definition.lazyInit
  autowire : d.autowire = line.findSome? Definition.autowire
  dependencyCheck : d.dependencyCheck = line.findSome? Definition.dependencyCheck
  role : d.role = line.findSome? Definition.role
  factoryBean : d.factoryBean = line.findSome? Definition.factoryBean
  factoryMethod : d.factoryMethod = line.findSome? Definition.factoryMethod
  /-- Above the root an empty text declares nothing. -/
  scope : d.scope = (line.dropLast.findSome? fun e => nonEmpty e.scope).or root.scope
  initMethod :
    d.initMethod = (line.dropLast.findSome? fun e => nonEmpty e.initMethod).or root.initMethod
  destroyMethod :
    d.destroyMethod
      = (line.dropLast.findSome? fun e => nonEmpty e.destroyMethod).or root.destroyMethod
  dependsOn : d.dependsOn = (line.findSome? dependencies?).getD []
  /-- Each name once, those that the root declares first. -/
  propertyNames :
    d.properties.map Property.name
      = Keyed.distinct (line.reverse.flatMap fun e => e.properties.map Property.name)
  property : ∀ name, d.property? name = line.findSome? fun e => e.property? name
  /-- Each index once. -/
  indexes : Arguments.IsSorted d.arguments.indexed
  argument : ∀ index, d.arguments.at? index = line.findSome? fun e => e.arguments.at? index
  isAbstract : some d.isAbstract = line.head?.map Definition.isAbstract
  location : some d.location = line.head?.map Definition.location
  parent : d.parent = root.parent

/-- Laying definitions over a root flattens them. -/
theorem isFlattening_layered {own root : Definition V} {between : List (Definition V)}
    (wellFormed : ∀ d ∈ own :: (between ++ [root]), d.IsWellFormed) :
    IsFlattening (own :: (between ++ [root])) root (layered (own :: between) root) := by
  have hroot : root.IsWellFormed := wellFormed root (by simp)
  have hupper : ∀ d ∈ own :: between, d.IsWellFormed := fun d hd =>
    wellFormed d (by rw [← List.cons_append]; exact List.mem_append_left _ hd)
  have upper : (own :: (between ++ [root])).dropLast = own :: between := by
    rw [← List.cons_append, List.dropLast_concat]
  have line : own :: (between ++ [root]) = (own :: between) ++ [root] := rfl
  constructor
  case className | lazyInit | autowire | dependencyCheck | role | factoryBean | factoryMethod =>
    exact layered_eq_findSome?_append _ fun _ _ _ => rfl
  case scope | initMethod | destroyMethod =>
    rw [upper]
    exact layered_eq_findSome? _ _ fun _ _ _ => rfl
  case dependsOn =>
    rw [dependsOn_eq, line]
    congr 1
    exact layered_eq_findSome?_append _ fun d _ lower => dependencies?_overrideWith _ d
  case propertyNames =>
    rw [line]
    exact propertyNames_layered hroot _
  case property =>
    intro name
    rw [line]
    exact layered_eq_findSome?_append (fun e => e.property? name) fun d hd lower =>
      property?_overrideWith _ d name (hupper d hd).properties
  case indexes => exact (isWellFormed_layered hroot _).indexed
  case argument =>
    intro index
    rw [line]
    exact layered_eq_findSome?_append (fun e => e.arguments.at? index) fun d hd lower =>
      at?_overrideWith (isWellFormed_layered hroot lower) (hupper d hd) index
  case isAbstract | location => rfl
  case parent =>
    show (layered (own :: between) root).parent = root.parent
    induction own :: between with
    | nil => rfl
    | cons d upper ih => exact ih

end Definition

end BeanWiring
