/-
# Directories

What a directory holds, and a walk through it: entry by entry, and on into the directories that it
enters.  Names of files and directories need not be texts; a path is written with slashes between
the names on it, which is possible if all of them are texts.
-/

namespace BeanWiring

/-! ## Names of entries -/

/-- The name of a file or a directory. -/
inductive FileName where
  | text (name : String)
  /-- Bytes that are no text. -/
  | bytes (name : List UInt8)
deriving DecidableEq

namespace FileName

/-- A name as a text. -/
def text? : FileName → Option String
  | text name => some name
  | bytes _ => none

/-- Whether a name is one of some texts. -/
def isAmong (texts : List String) : FileName → Bool
  | text name => texts.contains name
  | bytes _ => false

/-- A path as a text, if all names on it are texts. -/
def pathText? (path : List FileName) : Option String :=
  (path.mapM text?).map (String.intercalate "/")

end FileName

/-! ## Walks -/

/-- What an entry of a directory is. -/
inductive EntryKind where
  | file
  | directory
  /-- Neither of them, such as a link. -/
  | other
deriving DecidableEq

/-- Something met on a walk: the names on the path to it, its own last, and what it is. -/
structure WalkEntry where
  path : List FileName
  kind : EntryKind
deriving DecidableEq

/-- What a directory holds, one entry and then the rest. -/
inductive Directory where
  | empty
  | file (name : FileName) (rest : Directory)
  | other (name : FileName) (rest : Directory)
  | directory (name : FileName) (inside rest : Directory)
deriving DecidableEq

namespace Directory

/-- Walks through a directory that the names `above` lead to.  A directory that is not entered is
left out, with all that is inside. -/
def walk (enters : FileName → Bool) (above : List FileName) : Directory → List WalkEntry
  | empty => []
  | file name rest => ⟨above ++ [name], .file⟩ :: walk enters above rest
  | other name rest => ⟨above ++ [name], .other⟩ :: walk enters above rest
  | directory name inside rest =>
    (if enters name then
      ⟨above ++ [name], .directory⟩ :: walk enters (above ++ [name]) inside
    else
      []) ++ walk enters above rest

/-- The paths of the files in a directory, except for those in excluded directories. -/
def names (excluded : List String) (d : Directory) : List String :=
  (d.walk (fun name => !name.isAmong excluded) []).filterMap fun entry =>
    if entry.kind = .file then FileName.pathText? entry.path else none

end Directory

end BeanWiring
