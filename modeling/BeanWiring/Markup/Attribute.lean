/-
# Attributes of a tag

Reading the attributes of a start tag from the text between its brackets.  The keys of
one tag differ; values are quoted and keep their character references here.
-/
import BeanWiring.Markup.Fault
import BeanWiring.Text.Blank

namespace BeanWiring.Markup

open Text

/-- An attribute as written, with the position of its key in the tag. -/
structure RawAttribute where
  position : Nat
  key : List Char
  value : List Char
deriving DecidableEq

/-- The characters before the first that satisfies `p`, and the rest from there on. -/
def spanUntil (p : Char → Bool) (s : List Char) : List Char × List Char :=
  (s.takeWhile fun c => !p c, s.dropWhile fun c => !p c)

/-- Skips blanks; the position moves along. -/
def skipBlanks (position : Nat) (s : List Char) : Nat × List Char :=
  (position + byteLength (s.takeWhile isMarkupBlank), s.dropWhile isMarkupBlank)

/-- What follows the `=` after a key, which may stand after blanks. -/
def afterEquals (position : Nat) (s : List Char) : Except AttributeFault (Nat × List Char) :=
  match skipBlanks position s with
  | (p, []) => .error (.expectedEq p)
  | (p, c :: rest) => if c = '=' then .ok (p + 1, rest) else .error (.expectedEq p)

/-- A quoted value, which may stand after blanks, and what follows its closing quote. -/
def quotedValue (position : Nat) (s : List Char) :
    Except AttributeFault (List Char × Nat × List Char) :=
  match skipBlanks position s with
  | (p, []) => .error (.expectedValue p)
  | (p, quote :: rest) =>
    if quote = '"' ∨ quote = '\'' then
      match cutAt? quote rest with
      | some (value, after) => .ok (value, p + byteLength value + 2, after)
      | none => .error (.unclosedQuote (p + 1 + byteLength rest) quote)
    else
      .error (.unquotedValue p)

/-- The attribute whose key starts with `first`, and what follows it. -/
def attributeAt (seen : List RawAttribute) (position : Nat) (first : Char) (s : List Char) :
    Except AttributeFault (RawAttribute × Nat × List Char) := do
  let (tail, rest) := spanUntil (fun c => c = '=' || isMarkupBlank c) s
  let key := first :: tail
  let (p, rest) ← afterEquals (position + byteLength key) rest
  match seen.find? (·.key = key) with
  | some earlier => .error (.duplicated position earlier.position)
  | none =>
    let (value, p, rest) ← quotedValue p rest
    return (⟨position, key, value⟩, p, rest)

/-- Reads attributes until the end of the tag or the first fault, which comes after the
attributes before it.  At most `fuel` attributes are read. -/
def attributesFrom (fuel : Nat) (seen : List RawAttribute) (position : Nat) (s : List Char) :
    List RawAttribute × Option AttributeFault :=
  match fuel, skipBlanks position s with
  | 0, _ => (seen, none)
  | _, (_, []) => (seen, none)
  | fuel + 1, (p, c :: rest) =>
    match attributeAt seen p c rest with
    | .error fault => (seen, some fault)
    | .ok (found, p, rest) => attributesFrom fuel (seen ++ [found]) p rest

/-- The name that a tag starts with. -/
def tagName (content : List Char) : List Char :=
  content.takeWhile fun c => !isMarkupBlank c

/-- The attributes of a tag, up to the first fault. -/
def attributesOf (content : List Char) : List RawAttribute × Option AttributeFault :=
  let name := tagName content
  attributesFrom content.length [] (byteLength name) (content.drop name.length)

end BeanWiring.Markup
