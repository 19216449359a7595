/-
# Operations on values

The beans nested in a value, the bean names that it mentions, and its short display
form.  None of them enters a nested bean: it is a bean of its own.

Main statements: `inner_mapInner` and `referencedNames_mapInner`, which say that
exchanging the nested beans of a value changes nothing else about it.
-/
import BeanWiring.Definition.Basic

namespace BeanWiring

namespace Value

variable {B C : Type}

/-- The text of a literal. -/
def text? : Value B → Option String
  | literal text _ => some text
  | _ => none

/-- The bean that a value names as a whole. -/
def referencedName? : Value B → Option String
  | reference bean _ => some bean
  | nameReference bean => some bean
  | _ => none

/-! ## Nested beans -/

mutual

/-- The beans nested in a value, in order. -/
def inner : Value B → List B
  | .nested bean => [bean]
  | .list items => innerOfItems items
  | .set items => innerOfItems items
  | .map entries => innerOfEntries entries
  | .literal _ _ => []
  | .reference _ _ => []
  | .nameReference _ => []
  | .properties _ => []
  | .null => []

/-- The beans nested in a list of values. -/
def innerOfItems : List (Value B) → List B
  | [] => []
  | v :: vs => inner v ++ innerOfItems vs

/-- The beans nested in map entries, those of a key before those of its value. -/
def innerOfEntries : List (Value B × Value B) → List B
  | [] => []
  | (k, v) :: es => inner k ++ inner v ++ innerOfEntries es

end

mutual

/-- Exchanges the nested beans of a value. -/
def mapInner (f : B → C) : Value B → Value C
  | .nested bean => .nested (f bean)
  | .list items => .list (mapInnerItems f items)
  | .set items => .set (mapInnerItems f items)
  | .map entries => .map (mapInnerEntries f entries)
  | .literal text type => .literal text type
  | .reference bean toParent => .reference bean toParent
  | .nameReference bean => .nameReference bean
  | .properties entries => .properties entries
  | .null => .null

/-- Exchanges the nested beans of a list of values. -/
def mapInnerItems (f : B → C) : List (Value B) → List (Value C)
  | [] => []
  | v :: vs => mapInner f v :: mapInnerItems f vs

/-- Exchanges the nested beans of map entries. -/
def mapInnerEntries (f : B → C) : List (Value B × Value B) → List (Value C × Value C)
  | [] => []
  | (k, v) :: es => (mapInner f k, mapInner f v) :: mapInnerEntries f es

end

/-! ## Names -/

mutual

/-- The bean names that a value mentions, in order. -/
def referencedNames : Value B → List String
  | .reference bean _ => [bean]
  | .nameReference bean => [bean]
  | .list items => namesOfItems items
  | .set items => namesOfItems items
  | .map entries => namesOfEntries entries
  | .literal _ _ => []
  | .nested _ => []
  | .properties _ => []
  | .null => []

/-- The bean names that a list of values mentions. -/
def namesOfItems : List (Value B) → List String
  | [] => []
  | v :: vs => referencedNames v ++ namesOfItems vs

/-- The bean names that map entries mention. -/
def namesOfEntries : List (Value B × Value B) → List String
  | [] => []
  | (k, v) :: es => referencedNames k ++ referencedNames v ++ namesOfEntries es

end

/-! ## Display -/

/-- Keeps the first 12 and the last 13 characters of a text longer than 30. -/
def abbreviate (text : List Char) : List Char :=
  if text.length ≤ 30 then
    text
  else
    text.take 12 ++ " .. ".toList ++ text.drop (text.length - 13)

/-- A collection in display form: its parts with commas, abbreviated as a whole. -/
def displayCollection (opening closing : String) (parts : List String) : String :=
  String.ofList (abbreviate (opening ++ String.intercalate ", " parts ++ closing).toList)

mutual

/-- The short form of a value, as messages and outlines show it. -/
def display (label : B → String) : Value B → String
  | .literal text _ => "\"" ++ text ++ "\""
  | .nested bean => label bean
  | .reference bean _ => "reference <" ++ bean ++ ">"
  | .nameReference bean => "idref <" ++ bean ++ ">"
  | .null => "<null>"
  | .list items => displayCollection "[" "]" (displayItems label items)
  | .set items => displayCollection "[" "]" (displayItems label items)
  | .map entries => displayCollection "\x7b" "\x7d" (displayEntries label entries)
  | .properties entries =>
    displayCollection "\x7b" "\x7d" (entries.map fun e => e.1 ++ "=" ++ e.2)

/-- The short forms of a list of values. -/
def displayItems (label : B → String) : List (Value B) → List String
  | [] => []
  | v :: vs => display label v :: displayItems label vs

/-- The short forms of map entries. -/
def displayEntries (label : B → String) : List (Value B × Value B) → List String
  | [] => []
  | (k, v) :: es =>
    (display label k ++ "=" ++ display label v) :: displayEntries label es

end

/-! ## Exchanging nested beans -/

mutual

/-- The nested beans of an exchanged value are the exchanged nested beans. -/
theorem inner_mapInner (f : B → C) : (v : Value B) → (v.mapInner f).inner = v.inner.map f
  | .nested _ => rfl
  | .list items => innerOfItems_mapInner f items
  | .set items => innerOfItems_mapInner f items
  | .map entries => innerOfEntries_mapInner f entries
  | .literal _ _ => rfl
  | .reference _ _ => rfl
  | .nameReference _ => rfl
  | .properties _ => rfl
  | .null => rfl

theorem innerOfItems_mapInner (f : B → C) : (vs : List (Value B)) →
    innerOfItems (mapInnerItems f vs) = (innerOfItems vs).map f
  | [] => rfl
  | v :: vs => by
    simp [innerOfItems, mapInnerItems, inner_mapInner f v, innerOfItems_mapInner f vs]

theorem innerOfEntries_mapInner (f : B → C) : (es : List (Value B × Value B)) →
    innerOfEntries (mapInnerEntries f es) = (innerOfEntries es).map f
  | [] => rfl
  | (k, v) :: es => by
    simp [innerOfEntries, mapInnerEntries, inner_mapInner f k, inner_mapInner f v,
      innerOfEntries_mapInner f es]

end

mutual

/-- Exchanging nested beans keeps the names that a value mentions. -/
theorem referencedNames_mapInner (f : B → C) : (v : Value B) →
    (v.mapInner f).referencedNames = v.referencedNames
  | .nested _ => rfl
  | .list items => namesOfItems_mapInner f items
  | .set items => namesOfItems_mapInner f items
  | .map entries => namesOfEntries_mapInner f entries
  | .literal _ _ => rfl
  | .reference _ _ => rfl
  | .nameReference _ => rfl
  | .properties _ => rfl
  | .null => rfl

theorem namesOfItems_mapInner (f : B → C) : (vs : List (Value B)) →
    namesOfItems (mapInnerItems f vs) = namesOfItems vs
  | [] => rfl
  | v :: vs => by
    simp [namesOfItems, mapInnerItems, referencedNames_mapInner f v,
      namesOfItems_mapInner f vs]

theorem namesOfEntries_mapInner (f : B → C) : (es : List (Value B × Value B)) →
    namesOfEntries (mapInnerEntries f es) = namesOfEntries es
  | [] => rfl
  | (k, v) :: es => by
    simp [namesOfEntries, mapInnerEntries, referencedNames_mapInner f k,
      referencedNames_mapInner f v, namesOfEntries_mapInner f es]

end

end Value

end BeanWiring
