/-
# Elements

The tree of a document: elements with their namespace, attributes, text and lines.
It is folded from the tokens of the document, one `step` for each token, on a stack of
open elements.

Only the first element that stands on its own is kept, but all tokens are read, and a
fault anywhere is a fault of the document.
-/
import BeanWiring.Keyed
import BeanWiring.Markup.Attribute
import BeanWiring.Markup.Escape
import BeanWiring.Markup.Token

namespace BeanWiring.Markup

open Text

/-- An element of a document. -/
structure Element where
  localName : String
  namespaceUri : Option String := none
  /-- The attributes in order, without declarations of namespaces. -/
  attributes : List (String × String) := []
  children : List Element := []
  text : String := ""
  startLine : Nat := 0
  endLine : Nat := 0

namespace Element

/-- The value of an attribute. -/
def attribute? (e : Element) (key : String) : Option String :=
  e.attributes.lookup key

/-- The value of an attribute without blanks around it; a blank value counts as absent. -/
def filledAttribute? (e : Element) (key : String) : Option String :=
  ((e.attribute? key).map trim).filter (· ≠ "")

/-- Whether the attribute is written at all. -/
def hasAttribute (e : Element) (key : String) : Bool :=
  (e.attribute? key).isSome

end Element

/-! ## Open elements -/

/-- An element whose end tag is yet to come. -/
structure OpenElement where
  /-- The name as written in the start tag. -/
  name : List Char
  /-- Namespaces declared here and around here, by name prefix; the innermost declaration
  comes first. -/
  scope : List (List Char × String)
  /-- What is known of the element so far, its children apart. -/
  element : Element
  /-- The finished children, the last one first. -/
  children : List Element := []

/-- The namespaces that hold inside the innermost open element. -/
def scopeOf : (stack : List OpenElement) → List (List Char × String)
  | [] => []
  | top :: _ => top.scope

/-- The element whose end tag ends at a line. -/
def OpenElement.close (o : OpenElement) (line : Nat) : Element :=
  { o.element with children := o.children.reverse, endLine := line }

/-- A name as the part before its first colon, empty if there is none, and the part after. -/
def splitName (name : List Char) : List Char × List Char :=
  (cutAt? ':' name).getD ([], name)

/-- The attributes of a tag with their values, split into declared namespaces and others. -/
structure Attributes where
  scope : List (List Char × String) := []
  plain : List (String × String) := []

namespace Attributes

/-- Adds an attribute: `xmlns` and `xmlns:prefix` declare namespaces. -/
def add (a : Attributes) (key : List Char) (value : String) : Attributes :=
  if key = "xmlns".toList then
    { a with scope := ([], value) :: a.scope }
  else
    match stripStart? "xmlns:".toList key with
    | some namePrefix => { a with scope := (namePrefix, value) :: a.scope }
    | none => { a with plain := a.plain ++ [(String.ofList key, value)] }

/-- Unescapes and adds attributes in order. -/
def addAll (a : Attributes) : List RawAttribute → Except Fault Attributes
  | [] => .ok a
  | raw :: rest =>
    match unescape raw.value with
    | .error fault => .error (.attributeValue fault)
    | .ok value => (a.add raw.key (String.ofList value)).addAll rest

/-- Reads the attributes of a tag; the fault that comes first counts. -/
def ofTag (content : List Char) : Except Fault Attributes := do
  let (raws, fault) := attributesOf content
  let attributes ← addAll {} raws
  match fault with
  | some fault => .error (.attributes fault)
  | none => .ok attributes

end Attributes

/-- The element that a start tag opens at a line. -/
def openElement (content : List Char) (line : Nat) (stack : List OpenElement) :
    Except Fault OpenElement := do
  let attributes ← Attributes.ofTag content
  let name := tagName content
  let (namePrefix, localName) := splitName name
  let scope := attributes.scope ++ scopeOf stack
  let element :=
    { localName := String.ofList localName
      namespaceUri := scope.lookup namePrefix
      attributes := attributes.plain
      startLine := line
      endLine := line }
  return { name, scope, element }

/-! ## Folding tokens -/

/-- The state of a fold: the open elements, innermost first, and the finished root. -/
structure Builder where
  stack : List OpenElement := []
  root : Option Element := none

namespace Builder

/-- Hands a finished element to the one around it; on its own, the first is the root. -/
def attach (b : Builder) (e : Element) : Builder :=
  match b.stack with
  | top :: rest => { b with stack := { top with children := e :: top.children } :: rest }
  | [] => { b with root := b.root.or (some e) }

/-- Adds character data to the innermost open element. -/
def addText (b : Builder) (text : List Char) : Builder :=
  match b.stack with
  | top :: rest =>
    let element := { top.element with text := top.element.text ++ String.ofList text }
    { b with stack := { top with element } :: rest }
  | [] => b

/-- Takes in one token.  `lineOf` gives the line of a byte offset. -/
def step (lineOf : Nat → Nat) (b : Builder) (token : Token) : Except FaultAt Builder :=
  match token.piece with
  | .opening content =>
    match openElement content (lineOf token.start) b.stack with
    | .error fault => .error ⟨fault, token.start⟩
    | .ok opened => .ok { b with stack := opened :: b.stack }
  | .empty content =>
    match openElement content (lineOf token.start) b.stack with
    | .error fault => .error ⟨fault, token.start⟩
    | .ok opened => .ok (b.attach (opened.close (lineOf (token.stop - 1))))
  | .closing name =>
    match b.stack with
    | [] => .error ⟨.unmatchedEnd (String.ofList name), token.start⟩
    | top :: rest =>
      if top.name = name then
        .ok ({ b with stack := rest }.attach (top.close (lineOf (token.stop - 1))))
      else
        .error ⟨.mismatchedEnd (String.ofList top.name) (String.ofList name), token.start⟩
  | .text raw =>
    match b.stack with
    | [] => .ok b
    | _ :: _ =>
      match unescape raw with
      | .error fault => .error ⟨.text fault, token.stop⟩
      | .ok text => .ok (b.addText text)
  | .characterData raw => .ok (b.addText raw)
  | .remark => .ok b

/-- Takes in tokens from left to right, up to the first fault. -/
def run (lineOf : Nat → Nat) (b : Builder) : List Token → Except FaultAt Builder
  | [] => .ok b
  | token :: tokens =>
    match b.step lineOf token with
    | .error fault => .error fault
    | .ok b => b.run lineOf tokens

end Builder

/-- A fault of a document with the line it is reported at. -/
structure DocumentFault where
  fault : Fault
  line : Nat
deriving DecidableEq

/-- The tree of a document, from its tokens: the first element, if all are closed. -/
def treeOfTokens (lineOf : Nat → Nat) (scan : Scan) : Except DocumentFault Element :=
  match Builder.run lineOf {} scan.tokens with
  | .error found => .error ⟨found.fault, lineOf found.offset⟩
  | .ok b =>
    match scan.fault, b.stack, b.root with
    | some found, _, _ => .error ⟨found.fault, lineOf found.offset⟩
    | none, top :: _, _ => .error ⟨.unclosedElement top.element.localName, top.element.startLine⟩
    | none, [], some root => .ok root
    | none, [], none => .error ⟨.noElement, 1⟩

/-! ## Documents -/

/-- The character that marks the byte order at the start of a document. -/
def byteOrderMark : Char := Char.ofNat 0xFEFF

/-- Byte offsets of the line feeds of a text, counted from `offset`. -/
def lineFeeds (offset : Nat) : List Char → List Nat
  | [] => []
  | c :: s =>
    let rest := lineFeeds (offset + c.utf8Size) s
    if c = '\n' then offset :: rest else rest

/-- The line of a byte offset: one more than the line feeds before it, as a word of 32 bits. -/
def lineAt (feeds : List Nat) (offset : Nat) : Nat :=
  (1 + feeds.countP (· < offset)) % UInt32.size

/-- The tree of a document.  A byte order mark at its start is no markup, and the offsets
of tokens do not count it, while lines are looked up with it in place. -/
def parse (content : String) : Except DocumentFault Element :=
  let chars := content.toList
  let markup := if chars.head? = some byteOrderMark then chars.tail else chars
  let feeds := lineFeeds 0 chars
  treeOfTokens (lineAt feeds) (scan markup)

end BeanWiring.Markup
