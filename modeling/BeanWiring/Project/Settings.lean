/-
# Project settings

Whether a project follows imports, and which documents its locators take for configs:
those with a stem, a dot and one of the configured suffixes.

Main statement: `mem_locateNames`, what is located in a list of names.
-/
import BeanWiring.Document.Directory
import BeanWiring.Document.Store
import BeanWiring.Text.Blank

namespace BeanWiring

/-- The settings of a project. -/
structure ProjectSettings where
  /-- Whether imported documents are read as configs of their own. -/
  importsEnabled : Bool := true
  /-- The suffixes of config documents, without the dot. -/
  suffixes : List String := ["xml"]
deriving DecidableEq

/-- What a name has before a suffix, if it ends with it. -/
def stem? (name suffix : String) : Option (List Char) :=
  (Text.stripStart? suffix.toList.reverse name.toList.reverse).map List.reverse

/-- Whether a name has a suffix: before it comes a dot, and before the dot something. -/
def hasSuffix (name suffix : String) : Bool :=
  match stem? name suffix with
  | some stem => Text.endsWith ['.'] stem && 1 < Text.byteLength stem
  | none => false

namespace ProjectSettings

/-- Whether a name is that of a config document. -/
def isConfigName (s : ProjectSettings) (name : String) : Bool :=
  s.suffixes.any (hasSuffix name)

/-- The names of config documents among names, sorted. -/
def locateNames (s : ProjectSettings) (names : List String) : List String :=
  sortStrings (names.filter s.isConfigName)

/-- The paths of the config documents in a directory, sorted. -/
def locateIn (s : ProjectSettings) (excluded : List String) (d : Directory) : List String :=
  s.locateNames (d.names excluded)

/-- Exactly the names of config documents are located. -/
theorem mem_locateNames {s : ProjectSettings} {names : List String} {name : String} :
    name ∈ s.locateNames names ↔ name ∈ names ∧ s.isConfigName name = true := by
  simp [locateNames, sortStrings]

end ProjectSettings

end BeanWiring
