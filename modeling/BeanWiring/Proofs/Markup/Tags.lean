/-
# Written tags

A tag as the one who writes it sees it: a name with or without a part before the colon, attributes,
and declarations of namespaces, in any order.  Written out, with quotes around every value and
references in it, it opens the element that it describes.

Main statements:

* `attributesFrom_written` : attributes are read as they were written;
* `openElement_written` : the element that a written tag opens.
-/
import BeanWiring.Proofs.Markup.References
import BeanWiring.Proofs.Text.Searching
import BeanWiring.Markup.Element

namespace BeanWiring.Markup

open Text

/-! ## Attributes as they are written -/

/-- No blank of markup is in a text. -/
def NoBlanks (s : List Char) : Prop := ∀ c ∈ s, isMarkupBlank c = false

instance (s : List Char) : Decidable (NoBlanks s) := List.decidableBAll _ s

/-- Something that can be the key of an attribute: not empty, without blanks and `=`. -/
def IsKey (key : List Char) : Prop := key ≠ [] ∧ '=' ∉ key ∧ NoBlanks key

instance (key : List Char) : Decidable (IsKey key) :=
  inferInstanceAs (Decidable (key ≠ [] ∧ '=' ∉ key ∧ NoBlanks key))

/-- An attribute of a tag, or a declaration of a namespace: of the one that holds for names without
a colon, or of the one for names with the given part before it. -/
inductive TagAttribute where
  | plain (key value : List Char)
  | defaultNamespace (uri : List Char)
  | namespaceOf (name uri : List Char)
deriving DecidableEq

namespace TagAttribute

/-- The key that an attribute is written with. -/
def key : TagAttribute → List Char
  | plain key _ => key
  | defaultNamespace _ => "xmlns".toList
  | namespaceOf name _ => "xmlns:".toList ++ name

theorem key_plain (key value : List Char) : (plain key value).key = key := rfl

theorem key_defaultNamespace (uri : List Char) :
    (defaultNamespace uri).key = "xmlns".toList := rfl

theorem key_namespaceOf (name uri : List Char) :
    (namespaceOf name uri).key = "xmlns:".toList ++ name := rfl

/-- The value of an attribute. -/
def value : TagAttribute → List Char
  | plain _ value => value
  | defaultNamespace uri => uri
  | namespaceOf _ uri => uri

/-- An attribute that is read as what it is: the key of a plain one declares no namespace, and a
namespace is declared for a name that is not empty. -/
def IsWritable : TagAttribute → Prop
  | plain key _ => IsKey key ∧ key ≠ "xmlns".toList ∧ ¬ "xmlns:".toList <+: key
  | defaultNamespace _ => True
  | namespaceOf name _ => IsKey name

instance : DecidablePred IsWritable
  | plain key _ =>
    inferInstanceAs (Decidable (IsKey key ∧ key ≠ "xmlns".toList ∧ ¬ "xmlns:".toList <+: key))
  | defaultNamespace _ => inferInstanceAs (Decidable True)
  | namespaceOf name _ => inferInstanceAs (Decidable (IsKey name))

/-- An attribute behind a space, its value in quotation marks. -/
def written (a : TagAttribute) : List Char :=
  ' ' :: (a.key ++ '=' :: '"' :: (escape a.value ++ ['"']))

/-- The name that a namespace is declared for, empty for names without a colon, with the
namespace. -/
def declared? : TagAttribute → Option (List Char × String)
  | plain _ _ => none
  | defaultNamespace uri => some ([], String.ofList uri)
  | namespaceOf name uri => some (name, String.ofList uri)

/-- The key and the value, unless a namespace is declared. -/
def plain? : TagAttribute → Option (String × String)
  | plain key value => some (String.ofList key, String.ofList value)
  | defaultNamespace _ => none
  | namespaceOf _ _ => none

variable {a : TagAttribute}

/-- An attribute that can be written has a key that is read as one. -/
theorem isKey_key (h : a.IsWritable) : IsKey a.key := by
  cases a with
  | plain key value => exact h.1
  | defaultNamespace uri => show IsKey "xmlns".toList; decide
  | namespaceOf name uri =>
    have noEquals : '=' ∉ "xmlns:".toList := by decide
    have noBlanks : NoBlanks "xmlns:".toList := by decide
    refine ⟨nofun, ?_, List.forall_mem_append.2 ⟨noBlanks, h.2.2⟩⟩
    rw [TagAttribute.key_namespaceOf, List.mem_append, not_or]
    exact ⟨noEquals, h.2.1⟩

/-- Every attribute takes room, which the fuel for reading them rests on. -/
theorem length_le_written (attributes : List TagAttribute) :
    attributes.length ≤ (attributes.flatMap written).length := by
  induction attributes with
  | nil => exact Nat.le_refl 0
  | cons a attributes ih =>
    rw [List.flatMap_cons, List.length_append, written, List.length_cons, List.length_cons]
    omega

end TagAttribute

/-! ## Reading attributes -/

/-- Nothing is skipped where a text begins with no blank. -/
theorem skipBlanks_cons {c : Char} (solid : isMarkupBlank c = false) (position : Nat)
    (s : List Char) : skipBlanks position (c :: s) = (position, c :: s) := by
  obtain ⟨taken, left⟩ := takeWhile_append_cons (s := []) (p := isMarkupBlank) nofun solid s
  rw [List.nil_append] at taken left
  rw [skipBlanks, taken, left]
  rfl

/-- A single blank is skipped. -/
theorem skipBlanks_space_cons {c : Char} (solid : isMarkupBlank c = false) (position : Nat)
    (s : List Char) : skipBlanks position (' ' :: c :: s) = (position + 1, c :: s) := by
  obtain ⟨taken, left⟩ := takeWhile_append_cons (s := [' ']) (p := isMarkupBlank)
    (List.forall_mem_singleton.2 rfl) solid s
  rw [List.singleton_append] at taken left
  rw [skipBlanks, taken, left]
  rfl

section Reading

variable {seen : List RawAttribute} {key value : List Char}

/-- A value is read up to the quote behind it. -/
theorem quotedValue_quoted (position : Nat) (unquoted : '"' ∉ value) (rest : List Char) :
    ∃ p, quotedValue position ('"' :: (value ++ '"' :: rest)) = .ok (value, p, rest) := by
  refine ⟨position + byteLength value + 2, ?_⟩
  have solid : isMarkupBlank '"' = false := rfl
  rw [quotedValue, skipBlanks_cons solid]
  simp only [true_or, if_true, cutAt?_append unquoted]

/-- An attribute with a new key is read up to the quotation mark that ends its value. -/
theorem attributeAt_written (isKey : IsKey key) (new : ∀ r ∈ seen, r.key ≠ key)
    (unquoted : '"' ∉ value) (position : Nat) (rest : List Char) :
    ∃ first tail p, key = first :: tail ∧ isMarkupBlank first = false ∧
      attributeAt seen position first (tail ++ '=' :: '"' :: (value ++ '"' :: rest))
        = .ok (⟨position, key, value⟩, p, rest) := by
  obtain ⟨nonempty, noEquals, noBlanks⟩ := isKey
  obtain ⟨first, tail, rfl⟩ := List.exists_cons_of_ne_nil nonempty
  rw [List.mem_cons, not_or] at noEquals
  obtain ⟨solid, noBlanks⟩ := List.forall_mem_cons.1 noBlanks
  obtain ⟨p, read⟩ := quotedValue_quoted (position + byteLength (first :: tail) + 1) unquoted rest
  refine ⟨first, tail, p, rfl, solid, ?_⟩
  have cut : spanUntil (fun c => c = '=' || isMarkupBlank c)
      (tail ++ '=' :: '"' :: (value ++ '"' :: rest))
        = (tail, '=' :: '"' :: (value ++ '"' :: rest)) := by
    have inside : ∀ c ∈ tail, (!(c = '=' || isMarkupBlank c)) = true := by
      intro c there
      have other : c ≠ '=' := fun same => noEquals.2 (same ▸ there)
      simp [other, noBlanks c there]
    obtain ⟨taken, left⟩ := takeWhile_append_cons (c := '=') inside rfl
      ('"' :: (value ++ '"' :: rest))
    rw [spanUntil, taken, left]
  have equals : afterEquals (position + byteLength (first :: tail))
      ('=' :: '"' :: (value ++ '"' :: rest))
        = .ok (position + byteLength (first :: tail) + 1, '"' :: (value ++ '"' :: rest)) := by
    have solid : isMarkupBlank '=' = false := rfl
    rw [afterEquals, skipBlanks_cons solid]
    rfl
  have unseen : seen.find? (fun r => decide (r.key = first :: tail)) = none :=
    List.find?_eq_none.2 fun r there => by simpa using new r there
  rw [attributeAt, cut]
  simp only [equals, unseen, read, bind, Except.bind, pure, Except.pure]

/-- With fuel left, one attribute is read, and then those behind it. -/
theorem attributesFrom_succ {fuel position p q : Nat} {s rest later : List Char} {c : Char}
    {found : RawAttribute} (skipped : skipBlanks position s = (p, c :: rest))
    (read : attributeAt seen p c rest = .ok (found, q, later)) :
    attributesFrom (fuel + 1) seen position s
      = attributesFrom fuel (seen ++ [found]) q later := by
  rw [attributesFrom.eq_def]
  simp only [skipped, read]

/-- Attributes are read as they were written, if their keys differ. -/
theorem attributesFrom_written {attributes : List TagAttribute}
    (writable : ∀ a ∈ attributes, a.IsWritable) (once : (attributes.map TagAttribute.key).Nodup)
    {fuel : Nat} (enough : attributes.length ≤ fuel)
    (new : ∀ a ∈ attributes, ∀ r ∈ seen, r.key ≠ a.key) (position : Nat) :
    ∃ raws, attributesFrom fuel seen position (attributes.flatMap TagAttribute.written)
        = (seen ++ raws, none) ∧
      raws.map (fun r => (r.key, r.value)) = attributes.map fun a => (a.key, escape a.value) := by
  induction attributes generalizing fuel seen position with
  | nil =>
    refine ⟨[], ?_, rfl⟩
    rw [List.append_nil]
    cases fuel <;> rfl
  | cons a attributes ih =>
    obtain ⟨fuel, rfl⟩ : ∃ n, fuel = n + 1 := ⟨fuel - 1, by rw [List.length_cons] at enough; omega⟩
    obtain ⟨first, others⟩ := List.forall_mem_cons.1 writable
    obtain ⟨newFirst, newOthers⟩ := List.forall_mem_cons.1 new
    rw [List.map_cons, List.nodup_cons] at once
    obtain ⟨c, tail, p, key, solid, read⟩ := attributeAt_written (TagAttribute.isKey_key first)
      newFirst (quote_notMem_escape a.value) (position + 1)
      (attributes.flatMap TagAttribute.written)
    have later : ∀ b ∈ attributes, ∀ r ∈ seen ++ [⟨position + 1, a.key, escape a.value⟩],
        r.key ≠ b.key := by
      intro b listed r there
      rcases List.mem_append.1 there with old | own
      · exact newOthers b listed r old
      · rw [List.mem_singleton.1 own]
        exact fun same => once.1 (List.mem_map.2 ⟨b, listed, same.symm⟩)
    obtain ⟨raws, rest, same⟩ := ih others once.2 (Nat.le_of_succ_le_succ enough) later p
    refine ⟨⟨position + 1, a.key, escape a.value⟩ :: raws, ?_, ?_⟩
    · have text : (a :: attributes).flatMap TagAttribute.written
          = ' ' :: c :: (tail ++ '=' :: '"' :: (escape a.value ++ '"' ::
            attributes.flatMap TagAttribute.written)) := by
        simp [TagAttribute.written, key]
      rw [text, attributesFrom_succ (skipBlanks_space_cons solid position _) read, rest,
        List.append_assoc, List.singleton_append]
    · rw [List.map_cons, List.map_cons, same]

end Reading

/-! ## Tags -/

/-- A name, behind the part before its colon if it has one. -/
def qualified : (namePrefix : Option (List Char)) → (localName : List Char) → List Char
  | none, localName => localName
  | some namePrefix, localName => namePrefix ++ ':' :: localName

/-- A tag: its name and its attributes.  The name has no blanks, and no colon but the one that is
meant; the keys of the attributes differ. -/
structure Tag where
  namePrefix : Option (List Char) := none
  localName : List Char
  attributes : List TagAttribute := []
  solid : NoBlanks (qualified namePrefix localName) := by decide
  firstColon : ∀ part ∈ namePrefix, ':' ∉ part := by decide
  noColon : namePrefix = none → ':' ∉ localName := by decide
  writable : ∀ a ∈ attributes, a.IsWritable := by decide
  once : (attributes.map TagAttribute.key).Nodup := by decide

namespace Tag

variable (tag : Tag)

/-- The name as it is written. -/
def name : List Char := qualified tag.namePrefix tag.localName

/-- What is written between the brackets of the tag. -/
def written : List Char := tag.name ++ tag.attributes.flatMap TagAttribute.written

/-- The namespaces that the tag declares. -/
def declared : List (List Char × String) := tag.attributes.filterMap TagAttribute.declared?

/-- The attributes without declarations of namespaces. -/
def plain : List (String × String) := tag.attributes.filterMap TagAttribute.plain?

/-- The name of a tag is split at its colon, if it has one. -/
theorem splitName_name : splitName tag.name = (tag.namePrefix.getD [], tag.localName) := by
  cases front : tag.namePrefix with
  | none =>
    have none : cutAt? ':' tag.localName = none := by
      refine Option.eq_none_iff_forall_ne_some.2 fun p cut => tag.noColon front ?_
      rw [eq_of_cutAt? cut]
      exact List.mem_append_right _ List.mem_cons_self
    rw [splitName, name, front, qualified, none]
    rfl
  | some part =>
    have cut : cutAt? ':' (part ++ ':' :: tag.localName) = some (part, tag.localName) :=
      cutAt?_append (tag.firstColon part front)
    rw [splitName, name, front, qualified, cut]
    rfl

/-- The name of a written tag ends where its attributes begin. -/
theorem tagName_written : tagName tag.written = tag.name := by
  have solid : ∀ c ∈ tag.name, (!isMarkupBlank c) = true := by
    intro c there
    rw [tag.solid c there]
    rfl
  rw [tagName, written]
  cases tag.attributes with
  | nil =>
    rw [List.flatMap_nil, List.append_nil]
    exact List.takeWhile_eq_self_iff.2 solid
  | cons a attributes =>
    rw [List.flatMap_cons, TagAttribute.written, List.cons_append]
    exact (takeWhile_append_cons solid rfl _).1

/-- The attributes are read as they were written, in order and without a fault. -/
theorem attributesOf_written : ∃ raws, attributesOf tag.written = (raws, none) ∧
    raws.map (fun r => (r.key, r.value)) = tag.attributes.map fun a => (a.key, escape a.value) := by
  have enough : tag.attributes.length ≤ tag.written.length := by
    rw [written, List.length_append]
    have := TagAttribute.length_le_written tag.attributes
    omega
  have new : ∀ a ∈ tag.attributes, ∀ r ∈ ([] : List RawAttribute), r.key ≠ a.key := nofun
  obtain ⟨raws, read, same⟩ :=
    attributesFrom_written tag.writable tag.once enough new (byteLength tag.name)
  refine ⟨raws, ?_, same⟩
  rw [attributesOf, tagName_written]
  have drop : tag.written.drop tag.name.length = tag.attributes.flatMap TagAttribute.written :=
    List.drop_left
  rw [drop]
  exact read

end Tag

namespace Attributes

/-- An attribute that was written declares a namespace, or is kept. -/
theorem add_key {a : TagAttribute} (writable : a.IsWritable) (attributes : Attributes) :
    attributes.add a.key (String.ofList a.value)
      = ⟨a.declared?.toList ++ attributes.scope, attributes.plain ++ a.plain?.toList⟩ := by
  cases a with
  | plain key value =>
    obtain ⟨-, other, apart⟩ := writable
    have none : stripStart? "xmlns:".toList key = none :=
      Option.eq_none_iff_forall_ne_some.2 fun rest stripped =>
        apart ⟨rest, (stripStart?_eq_some_iff.1 stripped).symm⟩
    rw [TagAttribute.key_plain, add, if_neg other, none]
    rfl
  | defaultNamespace uri =>
    rw [TagAttribute.key_defaultNamespace, add, if_pos rfl]
    simp [TagAttribute.declared?, TagAttribute.plain?, TagAttribute.value]
  | namespaceOf name uri =>
    have other : "xmlns:".toList ++ name ≠ "xmlns".toList := fun same => by
      simpa using congrArg List.length same
    have found : stripStart? "xmlns:".toList ("xmlns:".toList ++ name) = some name :=
      stripStart?_eq_some_iff.2 rfl
    rw [TagAttribute.key_namespaceOf, add, if_neg other, found]
    simp [TagAttribute.declared?, TagAttribute.plain?, TagAttribute.value]

/-- Attributes are added in order; of the namespaces, the last one comes first. -/
theorem addAll_written {attributes : List TagAttribute} {raws : List RawAttribute}
    (writable : ∀ a ∈ attributes, a.IsWritable)
    (same : raws.map (fun r => (r.key, r.value)) = attributes.map fun a => (a.key, escape a.value))
    (before : Attributes) :
    before.addAll raws = .ok ⟨(attributes.filterMap TagAttribute.declared?).reverse ++ before.scope,
      before.plain ++ attributes.filterMap TagAttribute.plain?⟩ := by
  induction attributes generalizing raws before with
  | nil =>
    cases List.map_eq_nil_iff.1 same
    rw [List.filterMap_nil, List.filterMap_nil, List.append_nil]
    rfl
  | cons a attributes ih =>
    obtain ⟨first, others⟩ := List.forall_mem_cons.1 writable
    cases raws with
    | nil => cases same
    | cons raw raws =>
      obtain ⟨own, rest⟩ := List.cons.inj same
      obtain ⟨key, value⟩ := Prod.mk.inj own
      rw [addAll, key, value, unescape_escape]
      simp only
      rw [add_key first, ih others rest]
      cases a <;> simp [List.filterMap_cons, TagAttribute.declared?, TagAttribute.plain?]

/-- A written tag is read as declarations of namespaces and plain attributes, with the values that
were meant. -/
theorem ofTag_written (tag : Tag) :
    ofTag tag.written = .ok ⟨tag.declared.reverse, tag.plain⟩ := by
  obtain ⟨raws, read, same⟩ := tag.attributesOf_written
  have added := addAll_written tag.writable same {}
  rw [List.append_nil, List.nil_append] at added
  simp only [ofTag, read, added, bind, Except.bind]
  rfl

end Attributes

/-- The element that a tag opens at a line, where the given namespaces hold. -/
def Tag.opened (tag : Tag) (line : Nat) (scope : List (List Char × String)) : OpenElement :=
  { name := tag.name
    scope := tag.declared.reverse ++ scope
    element :=
      { localName := String.ofList tag.localName
        namespaceUri := (tag.declared.reverse ++ scope).lookup (tag.namePrefix.getD [])
        attributes := tag.plain
        startLine := line
        endLine := line } }

/-- A written tag opens its element. -/
theorem openElement_written (tag : Tag) (line : Nat) (stack : List OpenElement) :
    openElement tag.written line stack = .ok (tag.opened line (scopeOf stack)) := by
  simp only [openElement, Attributes.ofTag_written, tag.tagName_written, tag.splitName_name, bind,
    Except.bind, pure, Except.pure]
  rfl

end BeanWiring.Markup
