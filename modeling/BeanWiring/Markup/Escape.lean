/-
# Character references in markup

Unescaping a text: `&name;` for the five named characters, `&#n;` and `&#xn;` for
characters by number.
-/
import BeanWiring.Markup.Fault
import BeanWiring.Text.Blank

namespace BeanWiring.Markup

open Text

/-! ## Numbers -/

/-- The value of a digit in a base of at most sixteen. -/
def digit? (base : Nat) (c : Char) : Option Nat :=
  let value :=
    if '0' ≤ c ∧ c ≤ '9' then some (c.toNat - '0'.toNat)
    else if 'a' ≤ c ∧ c ≤ 'f' then some (c.toNat - 'a'.toNat + 10)
    else if 'A' ≤ c ∧ c ≤ 'F' then some (c.toNat - 'A'.toNat + 10)
    else none
  value.filter (· < base)

/-- Reads digits after a number already read; the number stays below `limit`. -/
def readDigits (base limit : Nat) (value : Nat) : List Char → Except CharacterFault Nat
  | [] => .ok value
  | c :: s =>
    match digit? base c with
    | none => .error .invalidDigit
    | some d =>
      if value * base + d < limit then readDigits base limit (value * base + d) s
      else .error .tooLarge

/-- Reads a number without sign, below two to the power of 32. -/
def readNumber (base : Nat) (s : List Char) : Except CharacterFault Nat :=
  match s with
  | [] => .error .empty
  | c :: _ => if c = '+' ∨ c = '-' then .error .sign else readDigits base 0x100000000 0 s

/-- The character that a number names; zero and surrogates name none. -/
def characterOf (code : Nat) : Except CharacterFault Char :=
  if code = 0 then .error .zero
  else if code < 0xD800 ∨ (0xDFFF < code ∧ code < 0x110000) then .ok (Char.ofNat code)
  else .error (.notCodepoint code)

/-- The character behind `#`: hexadecimal after a small `x`, or else decimal. -/
def numberedCharacter (s : List Char) : Except CharacterFault Char :=
  match s with
  | 'x' :: hex => do characterOf (← readNumber 16 hex)
  | _ => do characterOf (← readNumber 10 s)

/-! ## Entities -/

/-- The five characters that have names. -/
def namedCharacter? (name : List Char) : Option Char :=
  [("lt", '<'), ("gt", '>'), ("amp", '&'), ("apos", '\''), ("quot", '"')].lookup
    (String.ofList name)

/-- The character written between `&` and `;`, which stand before `start` and at `stop`. -/
def entity (start stop : Nat) (body : List Char) : Except EscapeFault Char :=
  match body with
  | '#' :: number =>
    match numberedCharacter number with
    | .ok c => .ok c
    | .error fault => .error (.character fault)
  | _ =>
    match namedCharacter? body with
    | some c => .ok c
    | none => .error (.unknownEntity start stop (String.ofList body))

/-- Unescapes the rest of a text of `length` bytes; `pending` is the reference being read,
with the position of its `&`, and `offset` the position reached. -/
def unescapeFrom (length : Nat) (pending : Option (Nat × List Char)) (offset : Nat) :
    List Char → Except EscapeFault (List Char)
  | [] =>
    match pending with
    | none => .ok []
    | some (start, _) => .error (.unterminated start length)
  | c :: s =>
    match pending with
    | none =>
      if c = '&' then
        unescapeFrom length (some (offset, [])) (offset + 1) s
      else
        (unescapeFrom length none (offset + c.utf8Size) s).map (c :: ·)
    | some (start, body) =>
      if c = '&' then
        .error (.unterminated start length)
      else if c = ';' then
        match entity (start + 1) offset body with
        | .error fault => .error fault
        | .ok d => (unescapeFrom length none (offset + 1) s).map (d :: ·)
      else
        unescapeFrom length (some (start, body ++ [c])) (offset + c.utf8Size) s

/-- Replaces the character references of a text. -/
def unescape (s : List Char) : Except EscapeFault (List Char) :=
  unescapeFrom (byteLength s) none 0 s

end BeanWiring.Markup
