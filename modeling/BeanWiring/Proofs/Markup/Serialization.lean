/-
# Writing elements out

A finite tree of elements is written out in document order: tags with what stands between them,
texts with references, character data as it is.  Folding the pieces builds the tree that was
written, with the namespace of each element looked up in the declarations around it.

Main statements:

* `Content.exists_reads` : what is written in an element is read in it;
* `treeOfTokens_pieces` : folding what a tree is written as gives the tree.
-/
import BeanWiring.Proofs.Markup.Nesting
import BeanWiring.Proofs.Markup.Tags

namespace BeanWiring.Markup

/-! ## Trees and what they are written as -/

/-- What stands one after the other in an element: pieces of character data, written in two ways,
and elements, of which the empty ones may be closed at once. -/
inductive Content where
  | nil
  | text (s : List Char) (rest : Content)
  | characterData (s : List Char) (rest : Content)
  | empty (tag : Tag) (rest : Content)
  | element (tag : Tag) (inside rest : Content)

/-- The namespace that a name is bound to: by the tag itself, or else by the nearest one of those
around it that declares it. -/
def boundUri : (around : List Tag) → (name : List Char) → Option String
  | [], _ => none
  | tag :: around, name => (tag.declared.lookup name).or (boundUri around name)

/-- The element of a tag within others, without its children and its text. -/
def Tag.element (tag : Tag) (around : List Tag) : Element :=
  { localName := String.ofList tag.localName
    namespaceUri := boundUri (tag :: around) (tag.namePrefix.getD [])
    attributes := tag.plain }

namespace Content

/-- The pieces that are written, in document order. -/
def pieces : Content → List Piece
  | nil => []
  | text s rest => .text (escape s) :: rest.pieces
  | characterData s rest => .characterData s :: rest.pieces
  | empty tag rest => .empty tag.written :: rest.pieces
  | element tag inside rest =>
    .opening tag.written :: (inside.pieces ++ .closing tag.name :: rest.pieces)

/-- The character data, without that of the elements. -/
def characters : Content → String
  | nil => ""
  | text s rest | characterData s rest => String.ofList s ++ rest.characters
  | empty _ rest | element _ _ rest => rest.characters

/-- The elements in order, within the tags around them. -/
def elements (around : List Tag) : Content → List Element
  | nil => []
  | text _ rest | characterData _ rest => rest.elements around
  | empty tag rest => tag.element around :: rest.elements around
  | element tag inside rest =>
    { tag.element around with
      children := inside.elements (tag :: around), text := inside.characters } ::
      rest.elements around

end Content

/-- Elements without their lines. -/
def withoutLines : List Element → List Element
  | [] => []
  | ⟨localName, uri, attributes, children, text, _, _⟩ :: rest =>
    ⟨localName, uri, attributes, withoutLines children, text, 0, 0⟩ :: withoutLines rest

theorem length_withoutLines (es : List Element) : (withoutLines es).length = es.length := by
  induction es with
  | nil => rw [withoutLines]
  | cons e es ih =>
    obtain ⟨⟩ := e
    rw [withoutLines, List.length_cons, List.length_cons, ih]

/-! ## Namespaces -/

theorem lookup_reverse {A B : Type} [BEq A] [LawfulBEq A] {xs : List (A × B)}
    (once : (xs.map Prod.fst).Nodup) (a : A) : xs.reverse.lookup a = xs.lookup a := by
  induction xs with
  | nil => rfl
  | cons x xs ih =>
    obtain ⟨b, y⟩ := x
    rw [List.map_cons, List.nodup_cons] at once
    rw [List.reverse_cons, List.lookup_append, ih once.2, List.lookup_cons, List.lookup_cons,
      List.lookup_nil]
    cases same : a == b with
    | false => exact Option.or_none
    | true =>
      have none : xs.lookup a = none := by
        refine List.lookup_eq_none_iff.2 fun p there => bne_iff_ne.2 fun again => once.1 ?_
        rw [← eq_of_beq same, again]
        exact List.mem_map.2 ⟨p, there, rfl⟩
      rw [none]
      rfl

/-- No tag declares two namespaces for one name. -/
theorem Tag.nodup_declared (tag : Tag) : (tag.declared.map Prod.fst).Nodup := by
  have keyed : ∀ {a b : TagAttribute}, a.IsWritable → b.IsWritable → a.key ≠ b.key →
      ∀ x, a.declared? = some x → ∀ y, b.declared? = some y → x.1 ≠ y.1 := by
    intro a b first second other x declares y declares'
    cases a <;> cases b <;> cases declares <;> cases declares'
    · exact absurd rfl other
    · exact second.1.symm
    · exact first.1
    · rintro rfl
      exact other rfl
  rw [Tag.declared, List.nodup_iff_pairwise_ne, List.pairwise_map, List.pairwise_filterMap]
  refine (List.pairwise_map.1 tag.once).imp_of_mem fun first second other => ?_
  exact keyed (tag.writable _ first) (tag.writable _ second) other

/-- The declarations of a tag stand before those around it. -/
theorem lookup_declared {tag : Tag} {around : List Tag} {scope : List (List Char × String)}
    (bound : ∀ name, scope.lookup name = boundUri around name) (name : List Char) :
    (tag.declared.reverse ++ scope).lookup name = boundUri (tag :: around) name := by
  rw [List.lookup_append, lookup_reverse tag.nodup_declared, bound, boundUri]

/-! ## Reading what was written -/

section Reading

variable {lineOf : Nat → Nat} {scope : List (List Char × String)} {around : List Tag}

/-- Filled and closed, what a tag opens is its element. -/
theorem withoutLines_close (bound : ∀ name, scope.lookup name = boundUri around name) (tag : Tag)
    (line line' : Nat) (i : Interior) (rest : List Element) :
    withoutLines (((tag.opened line scope).filled i).close line' :: rest)
      = { tag.element around with children := withoutLines i.children, text := i.text } ::
        withoutLines rest := by
  have uri : (tag.declared.reverse ++ scope).lookup (tag.namePrefix.getD [])
      = boundUri (tag :: around) (tag.namePrefix.getD []) := lookup_declared bound _
  simp [withoutLines, OpenElement.close, OpenElement.filled, Tag.opened, Tag.element, uri]

/-- What is written in an element is read in it, whatever the places of the tokens. -/
theorem Content.exists_reads (c : Content)
    (bound : ∀ name, scope.lookup name = boundUri around name) {tokens : List Token}
    (written : tokens.map Token.piece = c.pieces) :
    ∃ i, Reads lineOf scope tokens i ∧ i.text = c.characters ∧
      withoutLines i.children = c.elements around := by
  induction c generalizing scope around tokens with
  | nil =>
    cases List.map_eq_nil_iff.1 written
    exact ⟨{}, .nil, rfl, by rw [withoutLines, elements]⟩
  | text s rest ih =>
    obtain ⟨token, tokens, rfl, piece, later⟩ := List.map_eq_cons_iff.1 written
    obtain ⟨i, reads, text, children⟩ := ih bound later
    exact ⟨_, .text piece (unescape_escape s) reads, congrArg (String.ofList s ++ ·) text, children⟩
  | characterData s rest ih =>
    obtain ⟨token, tokens, rfl, piece, later⟩ := List.map_eq_cons_iff.1 written
    obtain ⟨i, reads, text, children⟩ := ih bound later
    exact ⟨_, .characterData piece reads, congrArg (String.ofList s ++ ·) text, children⟩
  | empty tag rest ih =>
    obtain ⟨token, tokens, rfl, piece, later⟩ := List.map_eq_cons_iff.1 written
    obtain ⟨i, reads, text, children⟩ := ih bound later
    refine ⟨_, .empty piece (openElement_written tag _ _) reads, String.empty_append.trans text, ?_⟩
    have closed := withoutLines_close bound tag (lineOf token.start) (lineOf (token.stop - 1)) {}
      i.children
    rw [OpenElement.filled_nil] at closed
    refine closed.trans ?_
    rw [children, elements, withoutLines]
    rfl
  | element tag inside rest ihIn ih =>
    obtain ⟨first, tokens, rfl, start, later⟩ := List.map_eq_cons_iff.1 written
    obtain ⟨inner, tokens, rfl, within, later⟩ := List.map_eq_append_iff.1 later
    obtain ⟨last, tokens, rfl, stop, later⟩ := List.map_eq_cons_iff.1 later
    obtain ⟨i, reads, text, children⟩ := ih bound later
    obtain ⟨j, reads', text', children'⟩ := ihIn (lookup_declared bound) within
    refine ⟨_, .element start (openElement_written tag _ _) reads' stop reads,
      String.empty_append.trans text, ?_⟩
    refine (withoutLines_close bound tag _ _ j i.children).trans ?_
    rw [children, children', text', elements]

/-- Written on its own, content is a list of elements with what stands around them. -/
theorem Content.exists_forest (c : Content) {tokens : List Token}
    (written : tokens.map Token.piece = c.pieces) :
    ∃ es, Forest lineOf tokens es ∧ withoutLines es = c.elements [] := by
  have bound : ∀ name, List.lookup name ([] : List (List Char × String)) = boundUri [] name :=
    fun _ => rfl
  induction c generalizing tokens with
  | nil =>
    cases List.map_eq_nil_iff.1 written
    exact ⟨[], .nil, by rw [withoutLines, elements]⟩
  | text s rest ih | characterData s rest ih =>
    obtain ⟨token, tokens, rfl, piece, later⟩ := List.map_eq_cons_iff.1 written
    obtain ⟨es, forest, same⟩ := ih later
    exact ⟨es, .aside (by rw [piece]; rfl) forest, same⟩
  | empty tag rest ih =>
    obtain ⟨token, tokens, rfl, piece, later⟩ := List.map_eq_cons_iff.1 written
    obtain ⟨es, forest, same⟩ := ih later
    have element : IsElement lineOf [] [token] _ :=
      .empty piece (openElement_written tag _ _)
    refine ⟨_, .element element forest, ?_⟩
    have closed := withoutLines_close bound tag (lineOf token.start) (lineOf (token.stop - 1)) {} es
    rw [OpenElement.filled_nil] at closed
    refine closed.trans ?_
    rw [same, elements, withoutLines]
    rfl
  | element tag inside rest _ ih =>
    obtain ⟨first, tokens, rfl, start, later⟩ := List.map_eq_cons_iff.1 written
    obtain ⟨inner, tokens, rfl, within, later⟩ := List.map_eq_append_iff.1 later
    obtain ⟨last, tokens, rfl, stop, later⟩ := List.map_eq_cons_iff.1 later
    obtain ⟨es, forest, same⟩ := ih later
    obtain ⟨j, reads, text, children⟩ := inside.exists_reads (lookup_declared bound) within
    have element := IsElement.tagged start (openElement_written tag _ _) reads stop
    have all := Forest.element element forest
    rw [List.cons_append, List.append_assoc] at all
    refine ⟨_, all, (withoutLines_close bound tag _ _ j es).trans ?_⟩
    rw [same, children, text, elements]

/-- **Serialization.**  If a tree is written out, with any texts and character data around it, then
the tree that is folded from its pieces is the one that was written, lines apart. -/
theorem treeOfTokens_pieces (document : Content) (e : Element)
    (tree : document.elements [] = [e]) (lineOf : Nat → Nat) (tokens : List Token)
    (written : tokens.map Token.piece = document.pieces) :
    ∃ root, treeOfTokens lineOf ⟨tokens, none⟩ = .ok root ∧ withoutLines [root] = [e] := by
  obtain ⟨es, forest, same⟩ := document.exists_forest written
  have single : es.length = 1 := by
    have count := congrArg List.length (same.trans tree)
    rwa [length_withoutLines] at count
  obtain ⟨root, rfl⟩ := List.length_eq_one_iff.1 single
  exact ⟨root, treeOfTokens_eq_ok_iff_forest.2 ⟨rfl, [], forest⟩, same.trans tree⟩

/-- The root declares a namespace for `p`, its first child another one, and the namespace of its
second child is declared nowhere. -/
def redeclared : Content :=
  .element
    { namePrefix := some ['p'], localName := ['a']
      attributes := [.namespaceOf ['p'] ['u'], .plain ['k'] ['<']] }
    (.text ['&']
      (.empty
        { namePrefix := some ['p'], localName := ['b']
          attributes := [.namespaceOf ['p'] ['v']] }
        (.characterData ['<'] (.empty { namePrefix := some ['q'], localName := ['c'] } .nil))))
    .nil

theorem treeOfTokens_redeclared :
    redeclared.pieces =
      [.opening "p:a xmlns:p=\"u\" k=\"&lt;\"".toList, .text "&amp;".toList,
        .empty "p:b xmlns:p=\"v\"".toList, .characterData ['<'], .empty "q:c".toList,
        .closing "p:a".toList] ∧
    ∃ root,
      treeOfTokens (fun _ => 1) ⟨redeclared.pieces.map fun piece => ⟨piece, 0, 0⟩, none⟩
        = .ok root ∧
      withoutLines [root] =
        [{ localName := "a", namespaceUri := some "u", attributes := [("k", "<")], text := "&<"
           children := [{ localName := "b", namespaceUri := some "v" }, { localName := "c" }] }] :=
  ⟨rfl, treeOfTokens_pieces redeclared _ rfl (fun _ => 1) _ rfl⟩

end Reading

end BeanWiring.Markup
