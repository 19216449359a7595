/-
# Document sources

Where documents come from.  A source answers for a name with the document or with the
reason why there is none, and with a stamp that tells versions of a document apart; a
name *exists* if it has a stamp, which does not mean that it can be read.
-/

namespace BeanWiring

/-- A document as it was read. -/
structure Document where
  name : String
  content : String
  stamp : Nat
deriving DecidableEq

/-- What goes wrong when a name is read although the document is there. -/
inductive ReadFault where
  | io (cause : String)
  | malformed (message : String)
deriving DecidableEq

/-- Why a document cannot be read. -/
inductive DocumentError where
  | notFound (name : String)
  | faulty (name : String) (fault : ReadFault)
deriving DecidableEq

/-- The text of a document error. -/
def DocumentError.message : DocumentError → String
  | notFound name => "Resource not found: " ++ name
  | faulty name (.io cause) => "IO error reading '" ++ name ++ "': " ++ cause
  | faulty name (.malformed message) => "Malformed document '" ++ name ++ "': " ++ message

/-- The word for the kind of a document error. -/
def DocumentError.kind : DocumentError → String
  | notFound _ => "NotFound"
  | faulty _ (.io _) => "Io"
  | faulty _ (.malformed _) => "Malformed"

/-- Things that documents are read from. -/
class DocumentSource (σ : Type) where
  /-- Reads the document of a name. -/
  read : σ → String → Except DocumentError Document
  /-- The stamp that the document of a name has now, if the name exists. -/
  stamp? : σ → String → Option Nat
  /-- An upper bound for the number of existing names that imports can lead to, from a document
  of a name. -/
  reach : σ → String → Nat

/-- Whether a name exists in a source. -/
def DocumentSource.has {σ : Type} [DocumentSource σ] (source : σ) (name : String) : Bool :=
  (stamp? source name).isSome

end BeanWiring
