/-
# Diagnostics

A message attached to a line of a resource: a problem met while reading a document
or while checking what it declares.  Both kinds share one type, so that all messages
about a resource can be listed, counted and replaced together.
-/
import BeanWiring.Keyed
import BeanWiring.Location

namespace BeanWiring

/-- How grave a diagnostic is. -/
inductive Severity where
  | error
  | warning
  | info
deriving DecidableEq

namespace Severity

/-- The word for a severity. -/
def name : Severity → String
  | error => "error"
  | warning => "warning"
  | info => "info"

end Severity

/-- A message about a line of a resource; line zero when the line is not known. -/
structure Diagnostic where
  severity : Severity
  resource : String
  line : Nat
  message : String
  /-- A stable word for the kind of problem. -/
  code : Option String := none
  /-- Name of the bean that the message is about. -/
  bean : Option String := none
  /-- Further keyed details, such as the name that was not found. -/
  details : List (String × String) := []
deriving DecidableEq

namespace Diagnostic

/-- A diagnostic at the first line of a location. -/
def atLocation (severity : Severity) (location : Location) (message : String) : Diagnostic :=
  ⟨severity, location.resource, location.startLine, message, none, none, []⟩

/-- Whether the diagnostic is an error. -/
def isError (d : Diagnostic) : Bool := d.severity = .error

/-- Whether the diagnostic is a warning. -/
def isWarning (d : Diagnostic) : Bool := d.severity = .warning

/-- The one-line form `resource:line: severity [CODE]: message`. -/
def render (d : Diagnostic) : String :=
  let code := match d.code with
    | some code => " [" ++ code ++ "]"
    | none => ""
  d.resource ++ ":" ++ toString d.line ++ ": " ++ d.severity.name ++ code ++ ": " ++ d.message

/-- The key under which a diagnostic names what it is about. -/
def subjectKey : String := "subject"

/-- What the diagnostic is about, where it says so. -/
def subject? (d : Diagnostic) : Option String :=
  d.details.lookup subjectKey

end Diagnostic

/-! ## Lists of diagnostics -/

/-- Number of errors. -/
def errorCount (ds : List Diagnostic) : Nat := ds.countP Diagnostic.isError

/-- Number of warnings. -/
def warningCount (ds : List Diagnostic) : Nat := ds.countP Diagnostic.isWarning

/-- Whether an error is among the diagnostics. -/
def hasErrors (ds : List Diagnostic) : Bool := ds.any Diagnostic.isError

/-- The diagnostics about one resource. -/
def forResource (resource : String) (ds : List Diagnostic) : List Diagnostic :=
  ds.filter (·.resource = resource)

end BeanWiring
