/-
# Type index

What is known about the classes that beans are made of: super classes, interfaces,
constructors by number of arguments, and methods.  The index may be incomplete, and
hierarchies may be cyclic; every walk ends all the same.

Main statement: `mem_addInterface`, that nothing which was collected gets lost.
-/
import BeanWiring.Keyed
import BeanWiring.Text.Upper

namespace BeanWiring

/-! ## Classes -/

/-- A method by name, number of arguments and whether it belongs to the class itself. -/
structure Method where
  name : String
  arity : Nat
  isStatic : Bool
deriving DecidableEq

/-- A class or an interface. -/
structure ClassInfo where
  name : String
  superName : Option String := none
  interfaces : List String := []
  isInterface : Bool := false
  /-- Numbers of arguments of the public constructors; none listed means the one without
  arguments. -/
  constructors : List Nat := []
  methods : List Method := []
deriving DecidableEq

/-- The method that sets a property. -/
def setterName (property : String) : String := "set" ++ Text.capitalize property

/-- The method that gets a property. -/
def getterName (property : String) : String := "get" ++ Text.capitalize property

/-- The method that gets a property of truth values. -/
def queryName (property : String) : String := "is" ++ Text.capitalize property

namespace ClassInfo

/-- Adds a method. -/
def addMethod (c : ClassInfo) (m : Method) : ClassInfo :=
  { c with methods := c.methods ++ [m] }

/-- Adds the method that sets a property. -/
def addSetter (c : ClassInfo) (property : String) : ClassInfo :=
  c.addMethod ⟨setterName property, 1, false⟩

/-- Adds the method that gets a property. -/
def addGetter (c : ClassInfo) (property : String) : ClassInfo :=
  c.addMethod ⟨getterName property, 0, false⟩

/-- Adds both methods of a property. -/
def addProperty (c : ClassInfo) (property : String) : ClassInfo :=
  (c.addGetter property).addSetter property

/-- Adds methods, then setters, then getters, then both methods of properties. -/
def addMembers (c : ClassInfo) (methods : List Method) (setters getters properties : List String) :
    ClassInfo :=
  let c := methods.foldl addMethod c
  let c := setters.foldl addSetter c
  let c := getters.foldl addGetter c
  properties.foldl addProperty c

end ClassInfo

/-! ## Method queries -/

/-- Which methods a query accepts, by whether they belong to the class itself. -/
inductive Staticness where
  | onType
  | onInstance
  | any
deriving DecidableEq

/-- Whether a method is accepted. -/
def Staticness.accepts : Staticness → Bool → Bool
  | onType, isStatic => isStatic
  | onInstance, isStatic => !isStatic
  | any, _ => true

/-- The word for a choice of methods. -/
def Staticness.name : Staticness → String
  | onType => "static"
  | onInstance => "instance"
  | any => "any"

/-- Reads a choice of methods; any other word accepts all. -/
def Staticness.ofName (word : String) : Staticness :=
  if word = "static" then onType else if word = "instance" then onInstance else any

/-- Which methods a query accepts, by their number of arguments. -/
inductive Arity where
  | any
  | exactly (n : Nat)
deriving DecidableEq

/-- Whether a number of arguments is accepted. -/
def Arity.accepts : Arity → Nat → Bool
  | any, _ => true
  | exactly n, count => n = count

/-- A query for a method. -/
structure MethodQuery where
  name : String
  arity : Arity := .any
  staticness : Staticness := .any
  /-- Whether methods of super classes are accepted. -/
  inherited : Bool := true
deriving DecidableEq

/-- Whether a query accepts a method. -/
def MethodQuery.accepts (q : MethodQuery) (m : Method) : Bool :=
  m.name = q.name && q.arity.accepts m.arity && q.staticness.accepts m.isStatic

/-! ## The index -/

/-- The known classes, by name. -/
structure TypeIndex where
  classes : List ClassInfo := []

namespace TypeIndex

/-- Adds a class in place of the one of its name. -/
def insert (t : TypeIndex) (c : ClassInfo) : TypeIndex :=
  ⟨Keyed.put ClassInfo.name c t.classes⟩

/-- The class of a name. -/
def class? (t : TypeIndex) (name : String) : Option ClassInfo :=
  Keyed.get? ClassInfo.name name t.classes

/-- The name of a class with each `$` written as a dot, as in source text. -/
def sourceName (name : String) : String :=
  String.ofList (name.toList.map fun c => if c = '$' then '.' else c)

/-- The class found under a name, or else under its source form. -/
def findType? (t : TypeIndex) (name : String) : Option String :=
  ((t.class? name).or (t.class? (sourceName name))).map ClassInfo.name

/-- Whether a class has a public constructor with a number of arguments. -/
def hasConstructor (t : TypeIndex) (type : String) (count : Nat) : Bool :=
  match t.class? type with
  | none => false
  | some c => if c.constructors.isEmpty then count = 0 else c.constructors.contains count

/-! ### Hierarchies -/

/-- The super classes of a class, up to one that is unknown or was met before. -/
def hierarchyFrom (t : TypeIndex) : (fuel : Nat) → (met : List String) →
    (superName : Option String) → List ClassInfo
  | 0, _, _ => []
  | _ + 1, _, none => []
  | fuel + 1, met, some name =>
    if name ∈ met then
      []
    else
      match t.class? name with
      | none => []
      | some c => c :: hierarchyFrom t fuel (name :: met) c.superName

/-- A class and its super classes, nearest first. -/
def hierarchy (t : TypeIndex) (c : ClassInfo) : List ClassInfo :=
  c :: t.hierarchyFrom (t.classes.length + 1) [c.name] c.superName

/-- The first method that a query accepts, with the class that declares it. -/
def findMethod? (t : TypeIndex) (type : String) (q : MethodQuery) : Option (ClassInfo × Method) :=
  match t.class? type with
  | none => none
  | some c =>
    (if q.inherited then t.hierarchy c else [c]).findSome? fun d =>
      (d.methods.find? q.accepts).map (d, ·)

/-- Whether a property of a class can be set. -/
def hasWritableProperty (t : TypeIndex) (type property : String) : Bool :=
  (t.findMethod? type ⟨setterName property, .exactly 1, .onInstance, true⟩).isSome

/-! ### Interfaces -/

/-- The names one step above a class: its interfaces and, for an interface, its super name. -/
def stepsUp (c : ClassInfo) : List String :=
  c.interfaces ++ if c.isInterface then c.superName.toList else []

/-- Adds a name and all names above it to those collected; a collected name is not
followed again, so a fuel above the number of classes is never used up. -/
def addInterface (t : TypeIndex) : (fuel : Nat) → (collected : List String) → (name : String) →
    List String
  | 0, collected, _ => collected
  | fuel + 1, collected, name =>
    if name ∈ collected then
      collected
    else
      match t.class? name with
      | none => name :: collected
      | some c => (stepsUp c).foldl (addInterface t fuel) (name :: collected)

/-- The names of all interfaces of a class, its super classes' included. -/
def interfacesOf (t : TypeIndex) (c : ClassInfo) : List String :=
  ((t.hierarchy c).flatMap stepsUp).foldl (t.addInterface (t.classes.length + 1)) []

/-- Whether a class implements an interface, directly or through others. -/
def implements (t : TypeIndex) (type interface : String) : Bool :=
  match t.class? type with
  | none => false
  | some c => (t.interfacesOf c).contains interface

/-- Nothing that is collected gets lost. -/
theorem mem_addInterface (t : TypeIndex) (fuel : Nat) (collected : List String) (name x : String)
    (h : x ∈ collected) : x ∈ t.addInterface fuel collected name := by
  induction fuel generalizing collected name with
  | zero => exact h
  | succ fuel ih =>
    simp only [addInterface]
    split
    · exact h
    · split
      · exact List.mem_cons_of_mem _ h
      · rename_i c _
        have : ∀ (names collected : List String), x ∈ collected →
            x ∈ names.foldl (addInterface t fuel) collected := by
          intro names
          induction names with
          | nil => exact fun _ h => h
          | cons n names ihn => exact fun _ h => ihn _ (ih _ _ h)
        exact this _ _ (List.mem_cons_of_mem _ h)

end TypeIndex

end BeanWiring
