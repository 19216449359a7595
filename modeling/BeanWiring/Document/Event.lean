/-
# What a document says

A document is read as a list of events, in the order of its elements: the defaults it
sets, the beans, aliases and components it declares, the documents it imports, and the
problems met on the way.
-/
import BeanWiring.Definition.Basic
import BeanWiring.Diagnostic

namespace BeanWiring

/-! ## Defaults -/

/-- Defaults declared for all beans of a document. -/
structure DocumentDefaults where
  lazyInit : String := "default"
  autowire : String := "no"
  dependencyCheck : String := "none"
  initMethod : Option String := none
  destroyMethod : Option String := none
  merge : String := "false"
deriving DecidableEq

namespace DocumentDefaults

/-- Whether beans are made on first use. -/
def isLazyInit (d : DocumentDefaults) : Bool := d.lazyInit = "true"

/-- Whether collections of a child are merged with those of its parent. -/
def isMerge (d : DocumentDefaults) : Bool := d.merge = "true"

end DocumentDefaults

/-! ## Components -/

/-- An element of a foreign namespace, with the beans and components inside it. -/
structure ComponentDeclaration where
  name : String
  namespaceUri : String := ""
  attributes : List (String × String) := []
  beans : List Declaration := []
  nested : List ComponentDeclaration := []
  location : Location

instance : Inhabited ComponentDeclaration := ⟨{ name := "", location := default }⟩

namespace ComponentDeclaration

/-- The first attribute of a key. -/
def attribute? (c : ComponentDeclaration) (key : String) : Option String :=
  c.attributes.lookup key

end ComponentDeclaration

/-! ## Events -/

/-- Something wrong in a document. -/
structure Problem where
  severity : Severity
  message : String
  location : Location
deriving DecidableEq

/-- The problem as a diagnostic about its resource. -/
def Problem.toDiagnostic (p : Problem) : Diagnostic :=
  { Diagnostic.atLocation p.severity p.location p.message with code := some "PARSING_FAILED" }

/-- One event of a document. -/
inductive Event where
  | defaults (defaults : DocumentDefaults)
  | bean (bean : Declaration)
  | aliasing (name beanName : String) (location : Location)
  | component (component : ComponentDeclaration)
  | importing (resource : String) (location : Location)
  /-- A problem after which reading goes on. -/
  | problem (problem : Problem)
  /-- A problem that ends the document. -/
  | fatal (problem : Problem)

end BeanWiring
