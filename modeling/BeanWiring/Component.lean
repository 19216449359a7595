/-
# Components

Elements of foreign namespaces in the model, and the rules that decide, by namespace,
whether such an element becomes a bean, a component or nothing.

Main statement: `findBean?_eq_find?`, that looking a bean up by name in a component is
looking for the first bean of that name among all its beans.
-/
import BeanWiring.Bean.Basic
import BeanWiring.Document.Event

namespace BeanWiring

/-- A namespace element with the beans and the components inside it. -/
structure Component where
  name : String
  namespaceUri : String
  location : Location
  beans : List Bean
  components : List Component

mutual

/-- The component that an element declares in a resource. -/
def Component.ofDeclaration (resource : String) : ComponentDeclaration → Component
  | ⟨name, namespaceUri, _, beans, nested, location⟩ =>
    ⟨name, namespaceUri, location, beans.map (Bean.named resource),
      componentsOf resource nested⟩

/-- The components that elements declare in a resource. -/
def componentsOf (resource : String) : List ComponentDeclaration → List Component
  | [] => []
  | c :: cs => Component.ofDeclaration resource c :: componentsOf resource cs

end

/-! ## Beans of components -/

mutual

/-- All beans of a component, its own before those of the components inside it. -/
def Component.allBeans : Component → List Bean
  | ⟨_, _, _, beans, components⟩ => beans ++ beansOfComponents components

/-- All beans of a list of components. -/
def beansOfComponents : List Component → List Bean
  | [] => []
  | c :: cs => c.allBeans ++ beansOfComponents cs

end

mutual

/-- The bean of a name: among the own beans first, then in the components inside. -/
def Component.findBean? (name : String) : Component → Option Bean
  | ⟨_, _, _, beans, components⟩ =>
    (beans.find? (·.name = name)).or (findInComponents? name components)

/-- The bean of a name in the first component that has one. -/
def findInComponents? (name : String) : List Component → Option Bean
  | [] => none
  | c :: cs => (c.findBean? name).or (findInComponents? name cs)

end

mutual

/-- A look-up by name finds the first bean of that name among all beans. -/
theorem Component.findBean?_eq_find? (name : String) : (c : Component) →
    c.findBean? name = c.allBeans.find? (·.name = name)
  | ⟨_, _, _, beans, components⟩ => by
    rw [Component.findBean?, Component.allBeans, List.find?_append,
      findInComponents?_eq_find? name components]

theorem findInComponents?_eq_find? (name : String) : (cs : List Component) →
    findInComponents? name cs = (beansOfComponents cs).find? (·.name = name)
  | [] => rfl
  | c :: cs => by
    rw [findInComponents?, beansOfComponents, List.find?_append,
      Component.findBean?_eq_find? name c, findInComponents?_eq_find? name cs]

end

theorem beansOfComponents_eq_flatMap (cs : List Component) :
    beansOfComponents cs = cs.flatMap Component.allBeans := by
  induction cs with
  | nil => rfl
  | cons c cs ih => simp [beansOfComponents, ih]

/-- The component reached by indexes: into the list first, then into those inside. -/
def componentAt? : List Nat → List Component → Option Component
  | [], _ => none
  | [i], cs => cs[i]?
  | i :: j :: path, cs =>
    match cs[i]? with
    | some c => componentAt? (j :: path) c.components
    | none => none

/-! ## Interpretation by namespace -/

/-- What a namespace element turns into. -/
inductive Interpreted where
  | bean (bean : Declaration)
  | component (component : ComponentDeclaration)
  | nothing

/-- Decides what an element turns into. -/
abbrev Interpreter := ComponentDeclaration → Interpreted

namespace Interpreter

/-- An element with exactly one bean and nothing nested is that bean; any other is a
component. -/
def standard : Interpreter := fun c =>
  match c.beans, c.nested with
  | [bean], [] => .bean bean
  | _, _ => .component c

/-- Every element is a component. -/
def always : Interpreter := .component

/-- An element is its first bean, or nothing if it has none. -/
def firstBean : Interpreter := fun c =>
  match c.beans with
  | bean :: _ => .bean bean
  | [] => .nothing

/-- No element means anything. -/
def never : Interpreter := fun _ => .nothing

/-- The interpreter that a word asks for; any other word asks for the standard one. -/
def ofName (word : String) : Interpreter :=
  if word = "ignore" then never
  else if word = "component" then always
  else if word = "first_bean" then firstBean
  else standard

end Interpreter

/-- Interpreters by namespace, with one for all other namespaces. -/
structure Namespaces where
  interpreters : List (String × Interpreter) := []
  fallback : Interpreter := Interpreter.standard

namespace Namespaces

/-- Sets the interpreter of a namespace. -/
def register (n : Namespaces) (uri : String) (interpreter : Interpreter) : Namespaces :=
  { n with interpreters := Keyed.put Prod.fst (uri, interpreter) n.interpreters }

/-- Interpreters given by words: one for all namespaces, and then those of single ones. -/
def ofNames (fallback : String) (entries : List (String × String)) : Namespaces :=
  entries.foldl (fun n entry => n.register entry.1 (Interpreter.ofName entry.2))
    { fallback := Interpreter.ofName fallback }

/-- Interprets an element by its namespace. -/
def interpret (n : Namespaces) (c : ComponentDeclaration) : Interpreted :=
  ((n.interpreters.lookup c.namespaceUri).getD n.fallback) c

end Namespaces

end BeanWiring
