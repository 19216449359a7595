/-
# Names of configs

Where an import leads, and the names under which a config is known outside its
project.

Main statement: `splitExternal?_externalName`, that an external name can be taken
apart again.
-/
import BeanWiring.Text.Blank

namespace BeanWiring

open Text

/-! ## Imports -/

/-- The marks that make an import location start at the root. -/
def rootMarks : List String := ["classpath*:", "classpath:", "file:"]

/-- Enters segments of a path from left to right: empty ones and `.` stay, `..` leaves the
last directory entered. -/
def enterSegments (entered : List (List Char)) : List (List Char) → List (List Char)
  | [] => entered
  | segment :: rest =>
    if segment = [] ∨ segment = ['.'] then enterSegments entered rest
    else if segment = ['.', '.'] then enterSegments entered.dropLast rest
    else enterSegments (entered ++ [segment]) rest

/-- The text before the last slash, empty if there is none. -/
def directoryOf (name : List Char) : List Char :=
  (dropRightWhile (· ≠ '/') name).dropLast

/-- The directory that a location starts in, and the location within it. -/
def importBase (importing location : List Char) : List Char × List Char :=
  match rootMarks.findSome? fun mark => stripStart? mark.toList location with
  | some rest => ([], rest.dropWhile (· = '/'))
  | none =>
    if startsWith ['/'] location then ([], location.dropWhile (· = '/'))
    else (directoryOf importing, location)

/-- The name of the document that an import location leads to. -/
def resolveImport (importing location : String) : String :=
  let (base, relative) := importBase importing.toList location.toList
  let start := (splitBy (· = '/') base).filter (· ≠ [])
  let segments := enterSegments start (splitBy (· = '/') relative)
  String.intercalate "/" (segments.map String.ofList)

/-! ## External names -/

/-- The name `/project/config` of a config outside its project. -/
def externalName (project config : String) : String :=
  "/" ++ project ++ "/" ++ config

/-- Takes an external name apart; neither part is empty. -/
def splitExternal? (name : String) : Option (String × String) :=
  match name.toList with
  | '/' :: rest =>
    match cutAt? '/' rest with
    | some (project, config) =>
      if project = [] ∨ config = [] then none
      else some (String.ofList project, String.ofList config)
    | none => none
  | _ => none

/-- The name that an external name stands for inside a project, if it is one of its own. -/
def localName? (project external : String) : Option String :=
  match stripStart? ('/' :: (project.toList ++ ['/'])) external.toList with
  | some rest => some (String.ofList rest)
  | none => none

/-- An external name can be taken apart, if the project's name has no slash. -/
theorem splitExternal?_externalName {project config : String} (hp : project ≠ "")
    (hc : config ≠ "") (noSlash : '/' ∉ project.toList) :
    splitExternal? (externalName project config) = some (project, config) := by
  have hp' : project.toList ≠ [] := fun e => hp (String.toList_inj.1 e)
  have hc' : config.toList ≠ [] := fun e => hc (String.toList_inj.1 e)
  simp [splitExternal?, externalName, String.toList_append, cutAt?_append noSlash, hp', hc']

end BeanWiring
