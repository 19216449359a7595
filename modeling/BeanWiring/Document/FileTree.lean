/-
# File trees

Documents in files below a root directory.  Names are paths with slashes; a step `..`
leads to the parent, and empty steps and `.` stay where they are, but each of them can
be taken from a directory only.  What lies outside the root is not known, except that
the directories above it are there.
-/
import BeanWiring.Document.Store
import BeanWiring.Project.Error
import BeanWiring.Project.Settings

namespace BeanWiring

/-- What a file holds. -/
inductive FileContent where
  | text (content : String)
  /-- Bytes that are no text. -/
  | binary
deriving DecidableEq

/-- The content of a file with the given bytes. -/
def FileContent.ofBytes (bytes : ByteArray) : FileContent :=
  match String.fromUTF8? bytes with
  | some content => .text content
  | none => .binary

/-- A place is given by the names of the directories that lead to it, outermost first. -/
abbrev Place := List String

/-- Files and directories below a root. -/
structure FileTree where
  /-- How the root is written in messages. -/
  root : String := ""
  files : List (Place × FileContent) := []
  directories : List Place := []

/-- What a path leads to. -/
inductive FileNode where
  | directory (place : Place)
  | file (content : FileContent)
  /-- A directory so many levels above the root. -/
  | above (levels : Nat)

namespace FileTree

/-! ## Paths -/

/-- The steps of a path, and of the path without the slashes at its start. -/
def steps (path : String) : List String :=
  (Text.splitBy (· = '/') path.toList).map String.ofList

/-- Whether a step of a path stays where it is. -/
def isIdle (step : String) : Bool := step = "" || step = "."

/-- The place that a step leads to, where all steps lead to directories. -/
def placeAfter (place : Place) (step : String) : Place :=
  if isIdle step then place
  else if step = ".." then place.dropLast
  else place ++ [step]

/-- The places that steps lead through, start and end included. -/
def placesAlong (place : Place) : List String → List Place
  | [] => [place]
  | step :: rest => place :: placesAlong (placeAfter place step) rest

/-! ## Building -/

/-- A tree with nothing but the root. -/
def empty (root : String) : FileTree := { root, directories := [[]] }

/-- Makes the directories that steps lead through. -/
def makeDirectories (t : FileTree) (path : List String) : FileTree :=
  { t with directories := Keyed.distinct (t.directories ++ placesAlong [] path) }

/-- Adds a directory with the directories on the way to it. -/
def addDirectory (t : FileTree) (path : String) : FileTree :=
  t.makeDirectories (steps path)

/-- Writes a file, and adds the directories on the way to it. -/
def writeFile (t : FileTree) (path : String) (content : FileContent) : FileTree :=
  let t := t.makeDirectories (steps path).dropLast
  { t with files := Keyed.put Prod.fst ((steps path).foldl placeAfter [], content) t.files }

/-! ## Following paths -/

/-- Enters what has a name in a directory. -/
def enter (t : FileTree) (place : Place) (name : String) : Option FileNode :=
  let target := place ++ [name]
  if t.directories.contains target then
    some (.directory target)
  else
    (t.files.lookup target).map .file

/-- Takes a step of a path. -/
def step (t : FileTree) : FileNode → String → Option FileNode
  | .directory place, name =>
    if isIdle name then some (.directory place)
    else if name = ".." then
      if place = [] then some (.above 1) else some (.directory place.dropLast)
    else t.enter place name
  | .above levels, name =>
    if isIdle name then some (.above levels)
    else if name = ".." then some (.above (levels + 1))
    else none
  | .file _, _ => none

/-- What the steps of a path lead to from the root. -/
def follow (t : FileTree) (path : List String) : Option FileNode :=
  path.foldlM t.step (.directory [])

/-- What a name stands for; slashes at its start mean nothing. -/
def find? (t : FileTree) (name : String) : Option FileNode :=
  t.follow ((steps name).dropWhile (· = ""))

/-- The path of a name below the root: idle steps at either end are dropped. -/
def pathOf (name : String) : String :=
  String.intercalate "/" (Text.dropRightWhile isIdle ((steps name).dropWhile isIdle))

/-! ## Documents -/

/-- The stamp of a name, the same for all that exist: a tree does not change. -/
def stamp? (t : FileTree) (name : String) : Option Nat :=
  (t.find? name).map fun _ => 0

/-- Reads the text in a file. -/
def read (t : FileTree) (name : String) : Except DocumentError Document :=
  match t.find? name with
  | some (.file (.text content)) => .ok ⟨name, content, 0⟩
  | some (.file .binary) => .error (.faulty name (.io "stream did not contain valid UTF-8"))
  | _ => .error (.notFound name)

/-- How many names imports can lead to: each starts with some of the steps of the importing
name, and goes on to a file or a directory without idle steps. -/
def reach (t : FileTree) (name : String) : Nat :=
  ((steps name).length + 1) * (t.files.length + t.directories.length + 1)

instance : DocumentSource FileTree where
  read := read
  stamp? := stamp?
  reach := reach

/-! ## Locating configs -/

/-- The name of a place in a directory, if it lies there and not further down. -/
def nameIn? (directory place : Place) : Option String :=
  if place.dropLast = directory then place.getLast? else none

/-- What a directory holds, down to a depth. -/
def entriesWithin (t : FileTree) : (depth : Nat) → Place → Directory
  | 0, _ => .empty
  | depth + 1, place =>
    let files := t.files.filterMap fun file => nameIn? place file.1
    (t.directories.filterMap (nameIn? place)).foldr
      (fun name => .directory (.text name) (t.entriesWithin depth (place ++ [name])))
      (files.foldr (fun name => .file (.text name)) .empty)

/-- How many steps the deepest place of a tree is away from the root. -/
def height (t : FileTree) : Nat :=
  ((t.files.map Prod.fst ++ t.directories).map List.length).max?.getD 0

/-- What a directory holds; nothing in it is deeper than the tree is high. -/
def entriesOf (t : FileTree) (place : Place) : Directory :=
  t.entriesWithin (t.height + 1) place

/-- Whether a path starts anew and not at the root of the tree. -/
def isAbsolute (path : String) : Bool := Text.startsWith ['/'] path.toList

/-- The place of a directory in the tree. -/
def directory? (t : FileTree) (path : String) : Option Place :=
  if isAbsolute path then
    none
  else
    match t.follow (steps path) with
    | some (.directory place) => some place
    | _ => none

/-- How a path is written in messages. -/
def display (t : FileTree) (path : String) : String :=
  if isAbsolute path then path else t.root ++ "/" ++ path

/-- A locator of config documents below a directory. -/
structure Locator where
  name : String
  /-- The path of the directory. -/
  directory : String := ""
  /-- Names of directories that are left out, at any depth. -/
  excluded : List String := []

/-- The names of the config documents that a locator finds, sorted. -/
def locate (t : FileTree) (settings : ProjectSettings) (locator : Locator) :
    Except ModelError (List String) :=
  match t.directory? locator.directory with
  | some place => .ok (settings.locateIn locator.excluded (t.entriesOf place))
  | none =>
    .error (.locator locator.name (t.display locator.directory ++ " is not a directory"))

end FileTree

end BeanWiring
