/-
# Source locations

Where an element was declared: a resource and the lines it spans.  Lines count from
one; line zero stands for "unknown".
-/

namespace BeanWiring

/-- A span of lines of one resource. -/
structure Location where
  resource : String
  startLine : Nat
  endLine : Nat
  start_le_end : startLine ≤ endLine
deriving DecidableEq

namespace Location

/-- The span from `start` to `stop`; it ends no earlier than it starts. -/
def ofLines (resource : String) (start stop : Nat) : Location :=
  ⟨resource, start, max start stop, Nat.le_max_left start stop⟩

/-- A span of one line. -/
def atLine (resource : String) (line : Nat) : Location :=
  ofLines resource line line

/-- A whole resource, where no line is known. -/
def unknown (resource : String) : Location :=
  ofLines resource 0 0

instance : Inhabited Location := ⟨unknown ""⟩

/-- Whether a line lies in the span. -/
def containsLine (l : Location) (line : Nat) : Bool :=
  l.startLine ≤ line && line ≤ l.endLine

end Location

end BeanWiring
