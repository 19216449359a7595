/-
# Bean definitions

The flat record that a document declares for one bean.  A scalar field is optional,
so that "not declared" differs from any declared value; inheritance depends on it.

The record is written over the type of its values, and a value over the type of the
beans nested in it: a *declaration* is the fixed point, where nested beans are
declarations again, and a bean of the model has the same values with nested beans in
place of nested declarations.
-/
import BeanWiring.Keyed
import BeanWiring.Location

namespace BeanWiring

/-! ## Flags -/

/-- How the collaborators of a bean are found without being named. -/
inductive Autowire where
  | no
  | byName
  | byType
  | constructor
  | autodetect
deriving DecidableEq

namespace Autowire

/-- The word for an autowire mode. -/
def name : Autowire → String
  | no => "no"
  | byName => "byName"
  | byType => "byType"
  | constructor => "constructor"
  | autodetect => "autodetect"

/-- All autowire modes. -/
def all : List Autowire := [no, byName, byType, constructor, autodetect]

/-- Reads an autowire mode; any other word, `default` included, declares none. -/
def ofName? (word : String) : Option Autowire :=
  all.find? (·.name = word)

/-- Whether collaborators are looked for at all. -/
def isEnabled (a : Autowire) : Bool := a ≠ no

end Autowire

/-- What a bean is for. -/
inductive Role where
  | application
  | support
  | infrastructure
deriving DecidableEq

namespace Role

/-- The word for a role. -/
def name : Role → String
  | application => "application"
  | support => "support"
  | infrastructure => "infrastructure"

/-- Reads a role; any other word declares none. -/
def ofName? (word : String) : Option Role :=
  [application, support, infrastructure].find? (·.name = word)

end Role

/-! ## Parts of a definition -/

/-- A constructor argument, without the index it may stand at. -/
structure Argument (V : Type) where
  typeName : Option String := none
  name : Option String := none
  value : V
  location : Location
deriving DecidableEq

/-- The constructor arguments of a definition: at most one for each index, in index
order, and those without an index, in order of declaration. -/
structure Arguments (V : Type) where
  indexed : List (Nat × Argument V) := []
  generic : List (Argument V) := []
deriving DecidableEq

/-- A property and its value. -/
structure Property (V : Type) where
  name : String
  value : V
  location : Location
deriving DecidableEq

/-- Who supplies an overridden method. -/
inductive OverrideKind where
  /-- The method looks a bean up. -/
  | lookup
  /-- Another bean replaces the method. -/
  | replacer
deriving DecidableEq

/-- The word for a kind of override. -/
def OverrideKind.name : OverrideKind → String
  | lookup => "lookup"
  | replacer => "replacer"

/-- A method of a bean that another bean supplies. -/
structure MethodOverride where
  kind : OverrideKind
  method : String
  bean : String
  location : Location
deriving DecidableEq

/-- The flat declaration of one bean. -/
structure Definition (V : Type) where
  className : Option String := none
  parent : Option String := none
  scope : Option String := none
  isAbstract : Bool := false
  lazyInit : Option Bool := none
  autowire : Option Autowire := none
  dependencyCheck : Option String := none
  role : Option Role := none
  dependsOn : List String := []
  factoryBean : Option String := none
  factoryMethod : Option String := none
  initMethod : Option String := none
  destroyMethod : Option String := none
  arguments : Arguments V := {}
  /-- The properties in order of declaration, at most one of each name. -/
  properties : List (Property V) := []
  overrides : List MethodOverride := []
  location : Location
deriving DecidableEq

/-! ## Values and declarations -/

/-- A value given to an argument or a property, over the beans nested in it. -/
inductive Value (B : Type) where
  /-- A literal text, with the type it should be converted to. -/
  | literal (text : String) (typeName : Option String)
  /-- Another bean, looked up in the parent context if so marked. -/
  | reference (bean : String) (toParent : Bool)
  /-- The name of another bean, taken as a text. -/
  | nameReference (bean : String)
  /-- A bean of its own inside the value. -/
  | nested (bean : B)
  | list (items : List (Value B))
  | set (items : List (Value B))
  | map (entries : List (Value B × Value B))
  | properties (entries : List (String × String))
  | null

/-- A definition with the names that it is registered under. -/
structure Declaration where
  name : String
  aliases : List String := []
  definition : Definition (Value Declaration)

instance {B : Type} : Inhabited (Value B) := ⟨.null⟩

instance {V : Type} [Inhabited V] : Inhabited (Argument V) :=
  ⟨{ value := default, location := default }⟩

instance {V : Type} : Inhabited (Definition V) := ⟨{ location := default }⟩

instance : Inhabited Declaration := ⟨⟨"", [], default⟩⟩

/-! ## Arguments -/

namespace Arguments

variable {V : Type}

/-- Writes an entry into a table sorted by index, over the one at its index. -/
def insertAt (index : Nat) (a : Argument V) : List (Nat × Argument V) → List (Nat × Argument V)
  | [] => [(index, a)]
  | (i, b) :: rest =>
    if index < i then (index, a) :: (i, b) :: rest
    else if index = i then (index, a) :: rest
    else (i, b) :: insertAt index a rest

/-- Adds an argument: at its index, or else after the others without one. -/
def add (index : Option Nat) (a : Argument V) (args : Arguments V) : Arguments V :=
  match index with
  | some i => { args with indexed := insertAt i a args.indexed }
  | none => { args with generic := args.generic ++ [a] }

/-- Whether an argument stands at the index. -/
def hasIndex (args : Arguments V) (index : Nat) : Bool :=
  Keyed.has Prod.fst index args.indexed

/-- All arguments with their indexes: first those with an index, in index order. -/
def toList (args : Arguments V) : List (Option Nat × Argument V) :=
  args.indexed.map (fun p => (some p.1, p.2)) ++ args.generic.map fun a => (none, a)

/-- All arguments, without their indexes. -/
def values (args : Arguments V) : List (Argument V) :=
  args.indexed.map (·.2) ++ args.generic

/-- Number of arguments. -/
def size (args : Arguments V) : Nat :=
  args.indexed.length + args.generic.length

/-- Whether there is no argument. -/
def isEmpty (args : Arguments V) : Bool :=
  args.indexed.isEmpty && args.generic.isEmpty

theorem length_toList (args : Arguments V) : args.toList.length = args.size := by
  simp [toList, size]

theorem values_eq (args : Arguments V) : args.values = args.toList.map (·.2) := by
  simp [values, toList, Function.comp_def]

/-- An index that is written has the argument; other indexes keep theirs. -/
theorem get?_insertAt (index k : Nat) (a : Argument V) (args : List (Nat × Argument V))
    (sorted : args.Pairwise fun p q => p.1 < q.1) :
    Keyed.get? Prod.fst k (insertAt index a args)
      = if index = k then some (index, a) else Keyed.get? Prod.fst k args := by
  induction args with
  | nil => by_cases h : index = k <;> simp [insertAt, Keyed.get?, h]
  | cons p rest ih =>
    obtain ⟨i, b⟩ := p
    have ih := ih sorted.of_cons
    simp only [Keyed.get?] at ih
    unfold insertAt
    split
    · by_cases h : index = k <;> simp [Keyed.get?, h]
    · split
      · by_cases h : index = k <;> simp_all [Keyed.get?]
      · by_cases hi : i = k
        · have : index ≠ k := by omega
          simp [Keyed.get?, hi, this]
        · simp [Keyed.get?, hi, ih]

end Arguments

/-! ## Derived facts -/

namespace Definition

variable {V : Type}

/-- Whether the definition inherits from a parent. -/
def isChild (d : Definition V) : Bool := d.parent.isSome

/-- The role, an application bean unless declared otherwise. -/
def effectiveRole (d : Definition V) : Role := d.role.getD .application

/-- Whether the bean is internal to a framework. -/
def isInfrastructure (d : Definition V) : Bool := d.effectiveRole = .infrastructure

/-- Whether there is one shared instance, the default. -/
def isSingleton (d : Definition V) : Bool :=
  d.scope.all fun s => s = "" || s = "singleton"

/-- The autowire mode, off unless declared otherwise. -/
def effectiveAutowire (d : Definition V) : Autowire := d.autowire.getD .no

/-- Adds a property in place of the one of the same name. -/
def addProperty (p : Property V) (d : Definition V) : Definition V :=
  { d with properties := Keyed.put Property.name p d.properties }

/-- The property of a name. -/
def property? (d : Definition V) (name : String) : Option (Property V) :=
  Keyed.get? Property.name name d.properties

/-- The values of a definition: of its arguments, then of its properties. -/
def values (d : Definition V) : List V :=
  d.arguments.values.map (·.value) ++ d.properties.map (·.value)

end Definition

end BeanWiring
