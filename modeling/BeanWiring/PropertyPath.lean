/-
# Property paths

A property name may address a nested property (`address.street`) or an element of an
indexed or mapped one (`items[0]`, `map['a.b']`).  A dot inside a key does not
separate: brackets of either direction switch between the inside and the outside of
a key.  Positions are byte offsets.
-/
import BeanWiring.Text.Blank

namespace BeanWiring.PropertyPath

open Text

/-! ## Separators -/

/-- The characters of a text with their byte offsets, counted from `offset`. -/
def positions (offset : Nat) : List Char → List (Nat × Char)
  | [] => []
  | c :: s => (offset, c) :: positions (offset + c.utf8Size) s

/-- Whether the character opens or closes a key. -/
def isBracket (c : Char) : Bool := c == '[' || c == ']'

/-- The first dot met outside a key. -/
def scan (inKey : Bool) : List (Nat × Char) → Option Nat
  | [] => none
  | (i, c) :: rest =>
    if isBracket c then scan (!inKey) rest
    else if c = '.' ∧ inKey = false then some i
    else scan inKey rest

/-- Offset of the first separating dot. -/
def firstSeparator (path : String) : Option Nat :=
  scan false (positions 0 path.toList)

/-- Offset of the last separating dot, found from the end of the path. -/
def lastSeparator (path : String) : Option Nat :=
  scan false (positions 0 path.toList).reverse

/-- The part of a path before its first separating dot, if it has one. -/
def head? (path : String) : Option String :=
  (firstSeparator path).map fun i =>
    String.ofList (((positions 0 path.toList).filter fun p => p.1 < i).map (·.2))

/-! ## Keys -/

/-- The texts between `[` and the next `]`; an open `[` at the end yields no key. -/
def rawKeys : (current : Option (List Char)) → List Char → List (List Char)
  | _, [] => []
  | none, c :: s => if c = '[' then rawKeys (some []) s else rawKeys none s
  | some key, c :: s => if c = ']' then key :: rawKeys none s else rawKeys (some (key ++ [c])) s

/-- A key without its quotes, if the same quote stands at both ends. -/
def unquote (key : List Char) : List Char :=
  if 2 ≤ key.length ∧ ((key.head? = some '\'' ∧ key.getLast? = some '\'') ∨
      (key.head? = some '"' ∧ key.getLast? = some '"')) then
    key.tail.dropLast
  else
    key

/-- The text before the first key, or the whole text if it has none. -/
def nameBeforeKeys (s : List Char) : List Char :=
  match cutAt? '[' s with
  | some (before, rest) => if rest.contains ']' then before else s
  | none => s

/-- A property name taken apart: the name proper and its keys without quotes. -/
structure Tokens where
  actualName : String
  keys : List String
deriving DecidableEq

namespace Tokens

/-- Takes a property name apart. -/
def ofName (name : String) : Tokens :=
  ⟨String.ofList (nameBeforeKeys name.toList),
    (rawKeys none name.toList).map fun key => String.ofList (unquote key)⟩

/-- The name with its keys in brackets and without quotes. -/
def canonicalName (t : Tokens) : String :=
  t.actualName ++ String.join (t.keys.map fun key => "[" ++ key ++ "]")

/-- Whether the name has a key. -/
def hasKeys (t : Tokens) : Bool := !t.keys.isEmpty

end Tokens

end BeanWiring.PropertyPath
