/-
# Documents in memory

Documents by name, each with a stamp from a clock that ticks at every write.  A name
can be made to fail when it is read; whether the document exists, and its stamp, stay
as they are.

Main statement: `stamp?_remove`, what a removal does to stamps.
-/
import BeanWiring.Document.Source
import BeanWiring.Keyed

namespace BeanWiring

/-- Strings in the order of their characters. -/
def sortStrings (xs : List String) : List String :=
  xs.mergeSort fun a b => decide (a ≤ b)

/-- Documents by name, the last stamp given, and the names that fail to be read. -/
structure DocumentStore where
  clock : Nat := 0
  documents : List Document := []
  faults : List (String × ReadFault) := []

namespace DocumentStore

/-- The document of a name. -/
def document? (s : DocumentStore) (name : String) : Option Document :=
  Keyed.get? Document.name name s.documents

/-- Writes a document with the next stamp. -/
def put (s : DocumentStore) (name content : String) : DocumentStore :=
  { s with
    clock := s.clock + 1
    documents := Keyed.put Document.name ⟨name, content, s.clock + 1⟩ s.documents }

/-- Removes a document. -/
def remove (s : DocumentStore) (name : String) : DocumentStore :=
  { s with documents := Keyed.erase Document.name name s.documents }

/-- Whether a document of the name exists. -/
def has (s : DocumentStore) (name : String) : Bool := (s.document? name).isSome

/-- The stamp of a document. -/
def stamp? (s : DocumentStore) (name : String) : Option Nat :=
  (s.document? name).map Document.stamp

/-- The names of all documents, sorted. -/
def names (s : DocumentStore) : List String :=
  sortStrings (s.documents.map Document.name)

/-- Makes a name fail from now on. -/
def fail (s : DocumentStore) (name : String) (fault : ReadFault) : DocumentStore :=
  { s with faults := Keyed.put Prod.fst (name, fault) s.faults }

/-- Ends the failing of a name. -/
def unfail (s : DocumentStore) (name : String) : DocumentStore :=
  { s with faults := Keyed.erase Prod.fst name s.faults }

/-- Whether a name is made to fail. -/
def isFailing (s : DocumentStore) (name : String) : Bool :=
  Keyed.has Prod.fst name s.faults

/-- Reads a document. -/
def read (s : DocumentStore) (name : String) : Except DocumentError Document :=
  match s.faults.lookup name with
  | some fault => .error (.faulty name fault)
  | none =>
    match s.document? name with
    | some document => .ok document
    | none => .error (.notFound name)

/-- A removal takes the stamp of its name and leaves all others. -/
theorem stamp?_remove (s : DocumentStore) (name other : String) :
    (s.remove name).stamp? other = if other = name then none else s.stamp? other := by
  by_cases h : other = name <;> simp [stamp?, document?, remove, Keyed.get?_erase, h]

instance : DocumentSource DocumentStore where
  read := read
  stamp? := stamp?
  reach s _ := s.documents.length

end DocumentStore

end BeanWiring
