/-
# Errors of the model

Why projects, configs and config sets cannot be managed as asked.  Documents never cause
these errors: what is wrong with a document becomes a diagnostic of its config.
-/

namespace BeanWiring

/-- What has a name that must be unique where it belongs. -/
inductive NamedKind where
  | project
  | config
  | configSet
deriving DecidableEq

/-- The name of a kind. -/
def NamedKind.name : NamedKind → String
  | project => "project"
  | config => "config"
  | configSet => "config set"

/-- Why something in the model cannot be managed as asked. -/
inductive ModelError where
  | closed
  | unknownProject (name : String)
  | duplicate (kind : NamedKind) (name : String)
  /-- No project has the config. -/
  | unresolvedExternalName (name : String)
  | locator (name message : String)
deriving DecidableEq

/-- The text of an error. -/
def ModelError.message : ModelError → String
  | closed => "Model is closed"
  | unknownProject name => "Unknown project: " ++ name
  | duplicate kind name => "Duplicate " ++ kind.name ++ ": " ++ name
  | unresolvedExternalName name => "Unresolvable external config name: " ++ name
  | .locator name message => "Config locator '" ++ name ++ "' failed: " ++ message

/-- The word for the kind of an error. -/
def ModelError.kind : ModelError → String
  | closed => "Closed"
  | unknownProject _ => "UnknownProject"
  | duplicate _ _ => "Duplicate"
  | unresolvedExternalName _ => "UnresolvedExternalName"
  | locator _ _ => "Locator"

end BeanWiring
