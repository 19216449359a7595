/-
# Nested elements

Which tokens make up an element, and which may stand in one: the grammar of a document, with the
tree that each part of it stands for.  The fold over the tokens of a document knows no grammar, only
a stack of open elements; it takes in exactly the lists of tokens that the grammar allows.

Main statements:

* `steps_of_step`, `step_of_steps` : all that taking in one token can do;
* `Reads.run`, `exists_reads_of_run` : what stands in an element fills the element;
* `run_eq_ok_iff_forest` : a document is taken in if and only if it is a list of elements;
* `treeOfTokens_eq_ok_iff_forest` : its tree is the first of them.
-/
import Mathlib.Data.List.Basic
import BeanWiring.Markup.Element

namespace BeanWiring.Markup

/-! ## What stands in an element -/

/-- What stands between the tags of an element: character data and finished children. -/
@[ext]
structure Interior where
  text : String := ""
  children : List Element := []

namespace Interior

/-- Character data alone. -/
def ofText (s : List Char) : Interior := { text := String.ofList s }

/-- A child alone. -/
def ofChild (e : Element) : Interior := { children := [e] }

/-- One interior followed by another one. -/
def append (c d : Interior) : Interior := ⟨c.text ++ d.text, c.children ++ d.children⟩

instance : Append Interior := ⟨append⟩

@[simp] theorem text_append (c d : Interior) : (c ++ d).text = c.text ++ d.text := rfl

@[simp] theorem children_append (c d : Interior) :
    (c ++ d).children = c.children ++ d.children := rfl

/-- Nothing in front of an interior leaves it as it is. -/
theorem nil_append (c : Interior) : {} ++ c = c := by
  ext1
  · exact String.empty_append
  · rfl

end Interior

/-- An open element once some more has been read inside of it. -/
def OpenElement.filled (o : OpenElement) (c : Interior) : OpenElement :=
  { o with
    element := { o.element with text := o.element.text ++ c.text }
    children := c.children.reverse ++ o.children }

namespace OpenElement

variable (o : OpenElement)

@[simp] theorem scope_filled (c : Interior) : (o.filled c).scope = o.scope := rfl

/-- An element filled with nothing stays as it is. -/
theorem filled_nil : o.filled {} = o := by
  obtain ⟨_, _, ⟨⟩, _⟩ := o
  simp [filled]

/-- Filling an element twice fills it with both interiors at once. -/
theorem filled_append (c d : Interior) : (o.filled c).filled d = o.filled (c ++ d) := by
  simp [filled, String.append_assoc]

end OpenElement

/-! ## Steps -/

namespace Builder

variable {lineOf : Nat → Nat} {token : Token} {b b' : Builder}

/-- All that taking in a token can do.  Character data counts inside of elements only. -/
inductive Steps (lineOf : Nat → Nat) (token : Token) : Builder → Builder → Prop
  | remark {b : Builder} (piece : token.piece = .remark) : Steps lineOf token b b
  | aside {root : Option Element} {raw : List Char}
      (piece : token.piece = .text raw ∨ token.piece = .characterData raw) :
      Steps lineOf token ⟨[], root⟩ ⟨[], root⟩
  | text {top : OpenElement} {rest : List OpenElement} {root : Option Element}
      {raw s : List Char} (piece : token.piece = .text raw) (meaning : unescape raw = .ok s) :
      Steps lineOf token ⟨top :: rest, root⟩ ⟨top.filled (.ofText s) :: rest, root⟩
  | characterData {top : OpenElement} {rest : List OpenElement} {root : Option Element}
      {raw : List Char} (piece : token.piece = .characterData raw) :
      Steps lineOf token ⟨top :: rest, root⟩ ⟨top.filled (.ofText raw) :: rest, root⟩
  | opening {stack : List OpenElement} {root : Option Element} {content : List Char}
      {opened : OpenElement} (piece : token.piece = .opening content)
      (opens : openElement content (lineOf token.start) stack = .ok opened) :
      Steps lineOf token ⟨stack, root⟩ ⟨opened :: stack, root⟩
  | empty {b : Builder} {content : List Char} {opened : OpenElement}
      (piece : token.piece = .empty content)
      (opens : openElement content (lineOf token.start) b.stack = .ok opened) :
      Steps lineOf token b (b.attach (opened.close (lineOf (token.stop - 1))))
  | closing {top : OpenElement} {rest : List OpenElement} {root : Option Element}
      (piece : token.piece = .closing top.name) :
      Steps lineOf token ⟨top :: rest, root⟩
        (attach ⟨rest, root⟩ (top.close (lineOf (token.stop - 1))))

/-- Character data outside of all elements is dropped. -/
theorem addText_nil (root : Option Element) (s : List Char) : addText ⟨[], root⟩ s = ⟨[], root⟩ :=
  rfl

/-- Character data goes into the innermost open element. -/
theorem addText_cons (top : OpenElement) (rest : List OpenElement) (root : Option Element)
    (s : List Char) : addText ⟨top :: rest, root⟩ s = ⟨top.filled (.ofText s) :: rest, root⟩ :=
  rfl

/-- A finished element outside of all others becomes the root, unless there is one. -/
theorem attach_nil (root : Option Element) (e : Element) :
    attach ⟨[], root⟩ e = ⟨[], root.or (some e)⟩ :=
  rfl

/-- A finished element goes into the innermost open element. -/
theorem attach_cons (top : OpenElement) (rest : List OpenElement) (root : Option Element)
    (e : Element) : attach ⟨top :: rest, root⟩ e = ⟨top.filled (.ofChild e) :: rest, root⟩ := by
  obtain ⟨_, _, ⟨⟩, _⟩ := top
  simp [attach, OpenElement.filled, Interior.ofChild]

/-- Taking in a token is one of the steps. -/
theorem steps_of_step (h : b.step lineOf token = .ok b') : Steps lineOf token b b' := by
  obtain ⟨stack, root⟩ := b
  cases piece : token.piece with
  | opening content =>
    simp only [step, piece] at h
    cases opens : openElement content (lineOf token.start) stack with
    | error fault => rw [opens] at h; cases h
    | ok opened => rw [opens] at h; cases h; exact .opening piece opens
  | empty content =>
    simp only [step, piece] at h
    cases opens : openElement content (lineOf token.start) stack with
    | error fault => rw [opens] at h; cases h
    | ok opened => rw [opens] at h; cases h; exact .empty piece opens
  | closing name =>
    simp only [step, piece] at h
    cases stack with
    | nil => cases h
    | cons top rest =>
      by_cases same : top.name = name
      · simp only [same, if_true] at h
        cases h
        exact .closing (piece.trans (congrArg Piece.closing same.symm))
      · simp only [same, if_false] at h
        cases h
  | text raw =>
    simp only [step, piece] at h
    cases stack with
    | nil => cases h; exact .aside (.inl piece)
    | cons top rest =>
      cases meaning : unescape raw with
      | error fault => simp only [meaning] at h; cases h
      | ok s => simp only [meaning, addText_cons] at h; cases h; exact .text piece meaning
  | characterData raw =>
    simp only [step, piece] at h
    cases stack with
    | nil => cases h; exact .aside (.inr piece)
    | cons top rest => cases h; exact .characterData piece
  | remark =>
    simp only [step, piece] at h
    cases h
    exact .remark piece

/-- Each of the steps is what taking in its token does. -/
theorem step_of_steps (h : Steps lineOf token b b') : b.step lineOf token = .ok b' := by
  cases h with
  | remark piece => simp only [step, piece]
  | aside piece => rcases piece with piece | piece <;> simp only [step, piece, addText_nil]
  | text piece meaning => simp only [step, piece, meaning, addText_cons]
  | characterData piece => simp only [step, piece, addText_cons]
  | opening piece opens => simp only [step, piece, opens]
  | empty piece opens => simp only [step, piece, opens]
  | closing piece => simp only [step, piece, if_true]

/-- The run goes on from where the step for the first token leads. -/
theorem run_cons_of_step {tokens : List Token} (h : Steps lineOf token b b') :
    b.run lineOf (token :: tokens) = b'.run lineOf tokens := by
  rw [run, step_of_steps h]

/-- A run that succeeds takes a step for its first token. -/
theorem run_cons_eq_ok {tokens : List Token} {b'' : Builder}
    (h : b.run lineOf (token :: tokens) = .ok b'') :
    ∃ b', Steps lineOf token b b' ∧ b'.run lineOf tokens = .ok b'' := by
  rw [run] at h
  cases first : b.step lineOf token with
  | error fault => rw [first] at h; cases h
  | ok b' => rw [first] at h; exact ⟨b', steps_of_step first, h⟩

/-- A run that succeeds may be prolonged. -/
theorem run_append_of_run {tokens : List Token} (h : b.run lineOf tokens = .ok b')
    (more : List Token) : b.run lineOf (tokens ++ more) = b'.run lineOf more := by
  induction tokens generalizing b with
  | nil =>
    cases h
    rfl
  | cons token tokens ih =>
    obtain ⟨next, step, further⟩ := run_cons_eq_ok h
    rw [List.cons_append, run_cons_of_step step, ih further]

/-- A run that succeeds does so on every part that it begins with. -/
theorem exists_run_of_run_append {tokens more : List Token} {b'' : Builder}
    (h : b.run lineOf (tokens ++ more) = .ok b'') : ∃ b', b.run lineOf tokens = .ok b' := by
  induction tokens generalizing b with
  | nil => exact ⟨b, rfl⟩
  | cons token tokens ih =>
    obtain ⟨next, step, further⟩ := run_cons_eq_ok h
    obtain ⟨b', taken⟩ := ih further
    exact ⟨b', by rw [run_cons_of_step step, taken]⟩

end Builder

/-! ## The grammar -/

/-- Nothing but an open element in which the given namespaces hold. -/
def within (scope : List (List Char × String)) : List OpenElement :=
  [{ name := [], scope, element := { localName := "" } }]

/-- Of the elements around it, only the namespaces matter to a tag. -/
theorem openElement_eq_within (content : List Char) (line : Nat) (stack : List OpenElement) :
    openElement content line stack = openElement content line (within (scopeOf stack)) :=
  rfl

/-- The tokens that may stand in an element, where the given namespaces hold, and what they say. -/
inductive Reads (lineOf : Nat → Nat) :
    (scope : List (List Char × String)) → List Token → Interior → Prop
  | nil {scope : List (List Char × String)} : Reads lineOf scope [] {}
  | remark {scope : List (List Char × String)} {token : Token} {tokens : List Token}
      {c : Interior} (piece : token.piece = .remark) (rest : Reads lineOf scope tokens c) :
      Reads lineOf scope (token :: tokens) c
  | text {scope : List (List Char × String)} {token : Token} {tokens : List Token}
      {c : Interior} {raw s : List Char} (piece : token.piece = .text raw)
      (meaning : unescape raw = .ok s) (rest : Reads lineOf scope tokens c) :
      Reads lineOf scope (token :: tokens) (.ofText s ++ c)
  | characterData {scope : List (List Char × String)} {token : Token} {tokens : List Token}
      {c : Interior} {raw : List Char} (piece : token.piece = .characterData raw)
      (rest : Reads lineOf scope tokens c) :
      Reads lineOf scope (token :: tokens) (.ofText raw ++ c)
  | empty {scope : List (List Char × String)} {token : Token} {tokens : List Token}
      {c : Interior} {content : List Char} {opened : OpenElement}
      (piece : token.piece = .empty content)
      (opens : openElement content (lineOf token.start) (within scope) = .ok opened)
      (rest : Reads lineOf scope tokens c) :
      Reads lineOf scope (token :: tokens)
        (.ofChild (opened.close (lineOf (token.stop - 1))) ++ c)
  | element {scope : List (List Char × String)} {first last : Token}
      {inner tokens : List Token} {inside c : Interior} {content : List Char}
      {opened : OpenElement} (start : first.piece = .opening content)
      (opens : openElement content (lineOf first.start) (within scope) = .ok opened)
      (within : Reads lineOf opened.scope inner inside)
      (stop : last.piece = .closing opened.name) (rest : Reads lineOf scope tokens c) :
      Reads lineOf scope (first :: (inner ++ last :: tokens))
        (.ofChild ((opened.filled inside).close (lineOf (last.stop - 1))) ++ c)

/-- The tokens of an element, where the given namespaces hold: a tag that is closed at once, or a
start tag, what stands in the element, and the end tag of the same name. -/
inductive IsElement (lineOf : Nat → Nat) (scope : List (List Char × String)) :
    List Token → Element → Prop
  | empty {token : Token} {content : List Char} {opened : OpenElement}
      (piece : token.piece = .empty content)
      (opens : openElement content (lineOf token.start) (within scope) = .ok opened) :
      IsElement lineOf scope [token] (opened.close (lineOf (token.stop - 1)))
  | tagged {first last : Token} {inner : List Token} {inside : Interior}
      {content : List Char} {opened : OpenElement} (start : first.piece = .opening content)
      (opens : openElement content (lineOf first.start) (within scope) = .ok opened)
      (within : Reads lineOf opened.scope inner inside)
      (stop : last.piece = .closing opened.name) :
      IsElement lineOf scope (first :: (inner ++ [last]))
        ((opened.filled inside).close (lineOf (last.stop - 1)))

/-- Whether a piece is no tag. -/
def Piece.isAside : Piece → Bool
  | text _ | characterData _ | remark => true
  | opening _ | empty _ | closing _ => false

/-- The tokens of elements that stand on their own, with anything but tags around them. -/
inductive Forest (lineOf : Nat → Nat) : List Token → List Element → Prop
  | nil : Forest lineOf [] []
  | aside {token : Token} {tokens : List Token} {es : List Element}
      (piece : token.piece.isAside = true) (rest : Forest lineOf tokens es) :
      Forest lineOf (token :: tokens) es
  | element {front tokens : List Token} {e : Element} {es : List Element}
      (first : IsElement lineOf [] front e) (rest : Forest lineOf tokens es) :
      Forest lineOf (front ++ tokens) (e :: es)

/-! ## The fold accepts what the grammar allows -/

open Builder

section Accepting

variable {lineOf : Nat → Nat} {scope : List (List Char × String)} {tokens : List Token}
  {c : Interior} {top : OpenElement} {rest : List OpenElement} {root : Option Element}

/-- What stands in an element fills it. -/
theorem Reads.run (h : Reads lineOf scope tokens c) (same : top.scope = scope)
    (more : List Token) :
    Builder.run lineOf ⟨top :: rest, root⟩ (tokens ++ more)
      = Builder.run lineOf ⟨top.filled c :: rest, root⟩ more := by
  induction h generalizing top rest more with
  | nil => rw [top.filled_nil, List.nil_append]
  | remark piece _ ih => rw [List.cons_append, run_cons_of_step (.remark piece), ih same]
  | text piece meaning _ ih =>
    rw [List.cons_append, run_cons_of_step (.text piece meaning), ← top.filled_append]
    exact ih ((top.scope_filled _).trans same) more
  | characterData piece _ ih =>
    rw [List.cons_append, run_cons_of_step (.characterData piece), ← top.filled_append]
    exact ih ((top.scope_filled _).trans same) more
  | @empty _ token _ _ content opened piece opens _ ih =>
    subst same
    have opens' : openElement content (lineOf token.start) (top :: rest) = .ok opened := opens
    rw [List.cons_append, run_cons_of_step (.empty piece opens'), attach_cons,
      ← top.filled_append]
    exact ih (top.scope_filled _) more
  | @element _ first last inner tokens inside c content opened start opens _ stop _ ihIn ih =>
    subst same
    have opens' : openElement content (lineOf first.start) (top :: rest) = .ok opened := opens
    have stop' : last.piece = .closing (opened.filled inside).name := stop
    calc Builder.run lineOf ⟨top :: rest, root⟩ (first :: (inner ++ last :: tokens) ++ more)
        = Builder.run lineOf ⟨opened :: top :: rest, root⟩
            (inner ++ (last :: (tokens ++ more))) := by
          rw [List.cons_append, List.append_assoc, run_cons_of_step (.opening start opens')]
          rfl
      _ = Builder.run lineOf ⟨opened.filled inside :: top :: rest, root⟩
            (last :: (tokens ++ more)) := ihIn rfl _
      _ = Builder.run lineOf ⟨top.filled (.ofChild ((opened.filled inside).close
            (lineOf (last.stop - 1)))) :: rest, root⟩ (tokens ++ more) := by
          rw [run_cons_of_step (.closing stop'), attach_cons]
      _ = _ := by
          rw [← top.filled_append]
          exact ih (top.scope_filled _) more

/-- An element joins the elements that are finished. -/
theorem IsElement.run {e : Element} (h : IsElement lineOf (scopeOf rest) tokens e)
    (more : List Token) :
    Builder.run lineOf ⟨rest, root⟩ (tokens ++ more)
      = Builder.run lineOf (attach ⟨rest, root⟩ e) more := by
  cases h with
  | empty piece opens => exact run_cons_of_step (.empty piece opens)
  | @tagged first last inner inside content opened start opens within stop =>
    rw [← openElement_eq_within] at opens
    have stop' : last.piece = .closing (opened.filled inside).name := stop
    calc Builder.run lineOf ⟨rest, root⟩ (first :: (inner ++ [last]) ++ more)
        = Builder.run lineOf ⟨opened :: rest, root⟩ (inner ++ (last :: more)) := by
          rw [List.cons_append, List.append_assoc, run_cons_of_step (.opening start opens)]
          rfl
      _ = Builder.run lineOf ⟨opened.filled inside :: rest, root⟩ (last :: more) :=
          within.run rfl _
      _ = _ := run_cons_of_step (.closing stop')

/-- Of elements that stand on their own, the first is the root. -/
theorem Forest.run {es : List Element} (h : Forest lineOf tokens es) :
    Builder.run lineOf ⟨[], root⟩ tokens = .ok ⟨[], root.or es.head?⟩ := by
  induction h generalizing root with
  | nil => rw [List.head?_nil, Option.or_none]; rfl
  | @aside token _ _ piece _ ih =>
    have stays : Steps lineOf token ⟨[], root⟩ ⟨[], root⟩ := by
      cases is : token.piece with
      | text raw => exact .aside (.inl is)
      | characterData raw => exact .aside (.inr is)
      | remark => exact .remark is
      | opening | empty | closing => rw [is] at piece; cases piece
    rw [run_cons_of_step stays, ih]
  | element first _ ih =>
    rw [first.run, attach_nil, ih, List.head?_cons]
    cases root <;> rfl

end Accepting

/-! ## The grammar allows what the fold accepts -/

section Accepted

variable {lineOf : Nat → Nat} {tokens : List Token} {rest : List OpenElement}
  {root root' : Option Element}

/-- If in the end all elements are closed, then what stands in an open element comes first, and its
end tag next. -/
theorem exists_reads_of_run {top : OpenElement}
    (h : Builder.run lineOf ⟨top :: rest, root⟩ tokens = .ok ⟨[], root'⟩) :
    ∃ inner last more c, tokens = inner ++ last :: more ∧ Reads lineOf top.scope inner c ∧
      last.piece = .closing top.name ∧
      Builder.run lineOf
        (attach ⟨rest, root⟩ ((top.filled c).close (lineOf (last.stop - 1)))) more
          = .ok ⟨[], root'⟩ := by
  obtain ⟨size, full⟩ : ∃ n, tokens.length = n := ⟨_, rfl⟩
  induction size using Nat.strongRecOn generalizing tokens top rest root with
  | _ size ih =>
    cases tokens with
    | nil => cases h
    | cons token tokens =>
      rw [List.length_cons] at full
      -- What is read of the element from here on follows what this token says.
      have onward : ∀ {c : Interior}, (∀ {later : List Token} {d : Interior},
            Reads lineOf top.scope later d → Reads lineOf top.scope (token :: later) (c ++ d)) →
          Builder.run lineOf ⟨top.filled c :: rest, root⟩ tokens = .ok ⟨[], root'⟩ →
          ∃ inner last more c, token :: tokens = inner ++ last :: more ∧
            Reads lineOf top.scope inner c ∧ last.piece = .closing top.name ∧
            Builder.run lineOf
              (attach ⟨rest, root⟩ ((top.filled c).close (lineOf (last.stop - 1)))) more
                = .ok ⟨[], root'⟩ := by
        intro c adds further
        obtain ⟨inner, last, more, d, split, reads, stop, final⟩ :=
          ih tokens.length (by omega) further rfl
        rw [top.filled_append] at final
        exact ⟨token :: inner, last, more, c ++ d, by rw [split]; rfl, adds reads, stop, final⟩
      obtain ⟨b, first, further⟩ := run_cons_eq_ok h
      cases first with
      | remark piece =>
        refine onward (c := {}) (fun reads => ?_) (by rwa [top.filled_nil])
        rw [Interior.nil_append]
        exact .remark piece reads
      | text piece meaning => exact onward (.text piece meaning) further
      | characterData piece => exact onward (.characterData piece) further
      | empty piece opens =>
        rw [attach_cons] at further
        exact onward (.empty piece opens) further
      | closing piece =>
        exact ⟨[], token, tokens, {}, rfl, .nil, piece, by rwa [top.filled_nil]⟩
      | @opening _ _ content opened start opens =>
        -- The element that starts here ends first, then the one around it.
        obtain ⟨inner, last, more, inside, split, reads, stop, final⟩ :=
          ih tokens.length (by omega) further rfl
        rw [attach_cons] at final
        have shorter : more.length < tokens.length := by
          rw [split, List.length_append, List.length_cons]
          omega
        obtain ⟨inner', last', more', c, split', reads', stop', final'⟩ :=
          ih more.length (by omega) final rfl
        rw [top.filled_append] at final'
        refine ⟨token :: (inner ++ last :: inner'), last', more', _, ?_,
          .element start opens reads stop reads', stop', final'⟩
        rw [split, split', List.cons_append, List.append_assoc]
        rfl

/-- If in the end all elements are closed, they all are complete. -/
theorem exists_forest_of_run (h : Builder.run lineOf ⟨[], root⟩ tokens = .ok ⟨[], root'⟩) :
    ∃ es, Forest lineOf tokens es ∧ root' = root.or es.head? := by
  obtain ⟨size, full⟩ : ∃ n, tokens.length = n := ⟨_, rfl⟩
  induction size using Nat.strongRecOn generalizing tokens root with
  | _ size ih =>
    cases tokens with
    | nil =>
      cases h
      exact ⟨[], .nil, Option.or_none.symm⟩
    | cons token tokens =>
      rw [List.length_cons] at full
      have onward : ∀ {front more : List Token} {e : Element}, IsElement lineOf [] front e →
          token :: tokens = front ++ more → more.length ≤ tokens.length →
          Builder.run lineOf (attach ⟨[], root⟩ e) more = .ok ⟨[], root'⟩ →
          ∃ es, Forest lineOf (token :: tokens) es ∧ root' = root.or es.head? := by
        intro front more e first split shorter further
        rw [attach_nil] at further
        obtain ⟨es, forest, same⟩ := ih more.length (by omega) further rfl
        refine ⟨e :: es, split ▸ .element first forest, ?_⟩
        rw [same, List.head?_cons]
        cases root <;> rfl
      obtain ⟨b, first, further⟩ := run_cons_eq_ok h
      cases first with
      | remark piece =>
        obtain ⟨es, forest, same⟩ := ih tokens.length (by omega) further rfl
        exact ⟨es, .aside (by rw [piece]; rfl) forest, same⟩
      | aside piece =>
        obtain ⟨es, forest, same⟩ := ih tokens.length (by omega) further rfl
        refine ⟨es, .aside ?_ forest, same⟩
        rcases piece with piece | piece <;> rw [piece] <;> rfl
      | empty piece opens => exact onward (.empty piece opens) rfl (Nat.le_refl _) further
      | opening start opens =>
        obtain ⟨inner, last, more, c, split, reads, stop, final⟩ := exists_reads_of_run further
        refine onward (.tagged start opens reads stop) ?_ ?_ final
        · rw [split, List.cons_append, List.append_assoc]
          rfl
        · rw [split, List.length_append, List.length_cons]
          omega

end Accepted

/-- **Nesting.**  All tokens are taken in, and all elements are closed in the end, if and only if
the tokens are those of elements that stand on their own. -/
theorem run_eq_ok_iff_forest {lineOf : Nat → Nat} {tokens : List Token} {root : Option Element} :
    Builder.run lineOf {} tokens = .ok ⟨[], root⟩ ↔
      ∃ es, Forest lineOf tokens es ∧ root = es.head? := by
  constructor
  · intro h
    obtain ⟨es, forest, same⟩ := exists_forest_of_run h
    rw [Option.none_or] at same
    exact ⟨es, forest, same⟩
  · rintro ⟨es, forest, rfl⟩
    rw [forest.run, Option.none_or]

/-- A document has a tree if and only if nothing is wrong with its tokens, and they are taken in
until all elements are closed. -/
theorem treeOfTokens_eq_ok_iff {lineOf : Nat → Nat} {scan : Scan} {e : Element} :
    treeOfTokens lineOf scan = .ok e ↔
      scan.fault = none ∧ Builder.run lineOf {} scan.tokens = .ok ⟨[], some e⟩ := by
  constructor
  · intro h
    rw [treeOfTokens] at h
    split at h
    · cases h
    · rename_i b taken
      split at h
      · cases h
      · cases h
      · rename_i root sound closed first
        cases h
        obtain ⟨stack, found⟩ := b
        cases closed
        cases first
        exact ⟨sound, taken⟩
      · cases h
  · rintro ⟨sound, taken⟩
    rw [treeOfTokens, taken, sound]

/-- The tokens of a document that has a tree are those of elements, of which the tree is the first
one. -/
theorem treeOfTokens_eq_ok_iff_forest {lineOf : Nat → Nat} {scan : Scan} {e : Element} :
    treeOfTokens lineOf scan = .ok e ↔
      scan.fault = none ∧ ∃ rest, Forest lineOf scan.tokens (e :: rest) := by
  rw [treeOfTokens_eq_ok_iff, run_eq_ok_iff_forest]
  refine and_congr_right fun _ => ⟨?_, ?_⟩
  · rintro ⟨es, forest, first⟩
    obtain ⟨rest, rfl⟩ := List.head?_eq_some_iff.1 first.symm
    exact ⟨rest, forest⟩
  · rintro ⟨rest, forest⟩
    exact ⟨_, forest, rfl⟩

end BeanWiring.Markup
