/-
# Placeholders and the factory mark

A text containing a placeholder, written with a dollar sign and braces, is completed
outside the model, so no check looks such a name up.  A name starting with `&` asks
for a factory itself instead of what it makes.
-/
import BeanWiring.Text.Blank

namespace BeanWiring

open Text

/-! ## Placeholders -/

/-- The two characters that open a placeholder. -/
def placeholderStart : List Char := ['$', '\x7b']

/-- The character that closes a placeholder. -/
def placeholderEnd : Char := '\x7d'

/-- Whether a placeholder opens somewhere in the text and is closed after it. -/
def placeholderIn : List Char → Bool
  | [] => false
  | c :: s =>
    match stripStart? placeholderStart (c :: s) with
    | some rest => rest.contains placeholderEnd
    | none => placeholderIn s

/-- Whether a name contains a placeholder. -/
def hasPlaceholder (name : String) : Bool :=
  placeholderIn name.toList

/-- Whether a name is a placeholder as a whole. -/
def isPlaceholder (name : String) : Bool :=
  startsWith placeholderStart name.toList && endsWith [placeholderEnd] name.toList

/-! ## References to a factory -/

/-- The mark of a reference to a factory itself. -/
def factoryMark : Char := '&'

/-- Whether a name asks for a factory itself. -/
def isFactoryReference (name : String) : Bool :=
  startsWith [factoryMark] name.toList

/-- The name without one leading factory mark. -/
def stripFactoryMark (name : String) : String :=
  match stripStart? [factoryMark] name.toList with
  | some rest => String.ofList rest
  | none => name

end BeanWiring
