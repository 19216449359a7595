/-
# Lines of elements

At which lines the elements of a document begin and end.  Tokens come one after the other, and so do
the lines of the elements that are folded from them: an element begins where its start tag begins
and ends where its end tag ends, and whatever stands in it lies between.

The line of a start tag is looked up in the document by an offset that does not count the mark of
the byte order.  Without a mark it is right.  Behind a mark, the line feeds are missed that stand in
the last bytes in front of the tag.  The order of lines does not depend on that, but on how many
lines there are, since lines are words of 32 bits.

Main statements:

* `Reads.spanWithin` : the lines of what stands in an element lie within those of its tokens;
* `Reads.openings` : the elements in document order are those that the start tags open in turn;
* `Scans.inOrder`, `Scans.inPlace` : a scan reports tokens in order, and tags at their places;
* `OpensBehind.startLine_eq_iff` : when an element has the line that its tag is on;
* `parse_lines` : the lines of the elements of a document.
-/
import Mathlib.Data.List.Forall2
import Mathlib.Order.Monotone.Defs
import BeanWiring.Proofs.Markup.Comments

namespace BeanWiring.Markup

open Text

/-! ## Document order -/

mutual

/-- An element and all elements inside of it in document order: each one before those inside. -/
def Element.preorder : Element → List Element
  | ⟨localName, uri, attributes, children, text, startLine, endLine⟩ =>
    ⟨localName, uri, attributes, children, text, startLine, endLine⟩ :: documentOrder children

/-- All elements of trees that stand one after the other, in document order. -/
def documentOrder : List Element → List Element
  | [] => []
  | e :: es => e.preorder ++ documentOrder es

end

theorem documentOrder_cons (e : Element) (es : List Element) :
    documentOrder (e :: es) = e :: (documentOrder e.children ++ documentOrder es) := by
  obtain ⟨⟩ := e
  rfl

/-- The document order of one tree is that of its element. -/
theorem documentOrder_singleton (e : Element) : documentOrder [e] = e.preorder :=
  List.append_nil e.preorder

/-! ## Tokens in order -/

section Order

variable {lo mid hi : Nat} {tokens more : List Token}

/-- Tokens that stand one after the other between two offsets. -/
inductive InOrder : (lo : Nat) → List Token → (hi : Nat) → Prop
  | nil {lo hi : Nat} (le : lo ≤ hi) : InOrder lo [] hi
  | cons {lo hi : Nat} {t : Token} {tokens : List Token} (behind : lo ≤ t.start)
      (solid : t.start < t.stop) (rest : InOrder t.stop tokens hi) : InOrder lo (t :: tokens) hi

namespace InOrder

/-- Tokens take room, so their bounds are in order. -/
theorem le (h : InOrder lo tokens hi) : lo ≤ hi := by
  induction h with
  | nil le => exact le
  | cons behind solid _ ih => omega

/-- The lower bound of tokens may be moved down. -/
theorem weaken (h : InOrder mid tokens hi) (le : lo ≤ mid) : InOrder lo tokens hi := by
  cases h with
  | nil le' => exact .nil (by omega)
  | cons behind solid rest => exact .cons (by omega) solid rest

/-- Tokens up to an offset and tokens from there on stand one after the other. -/
theorem append (h : InOrder lo tokens mid) (h' : InOrder mid more hi) :
    InOrder lo (tokens ++ more) hi := by
  induction h with
  | nil le => exact h'.weaken le
  | cons behind solid _ ih => exact .cons behind solid (ih h')

/-- Tokens that stand one after the other can be cut in two, with an offset in between. -/
theorem exists_between (h : InOrder lo (tokens ++ more) hi) :
    ∃ mid, InOrder lo tokens mid ∧ InOrder mid more hi := by
  induction tokens generalizing lo with
  | nil => exact ⟨lo, .nil (Nat.le_refl lo), h⟩
  | cons t tokens ih =>
    cases h with
    | cons behind solid rest =>
      obtain ⟨mid, front, back⟩ := ih rest
      exact ⟨mid, .cons behind solid front, back⟩

end InOrder

end Order

/-! ## Lines within lines -/

/-- The lines of an element go forward and span those of its children, which begin in order. -/
structure Element.SpansChildren (e : Element) : Prop where
  forward : e.startLine ≤ e.endLine
  within : ∀ c ∈ e.children, e.startLine ≤ c.startLine ∧ c.endLine ≤ e.endLine
  ordered : e.children.Pairwise fun c c' => c.startLine ≤ c'.startLine

/-- Trees that begin in order and lie within some lines, and in which all elements span their
children. -/
structure SpanWithin (first last : Nat) (es : List Element) : Prop where
  within : ∀ e ∈ es, first ≤ e.startLine ∧ e.endLine ≤ last
  ordered : es.Pairwise fun e e' => e.startLine ≤ e'.startLine
  all : ∀ e ∈ documentOrder es, e.SpansChildren

namespace SpanWithin

variable {first first' mid last last' : Nat} {es : List Element}

theorem nil : SpanWithin first last [] := by
  exact ⟨nofun, .nil, nofun⟩

/-- Trees that lie within some lines lie within any wider ones. -/
theorem weaken (h : SpanWithin first last es) (lower : first' ≤ first) (upper : last ≤ last') :
    SpanWithin first' last' es := by
  refine ⟨fun e there => ?_, h.ordered, h.all⟩
  have := h.within e there
  omega

/-- An element that is closed behind its children comes before what begins behind it. -/
theorem cons_close {o : OpenElement} {line : Nat} (begins : first ≤ o.element.startLine)
    (forward : o.element.startLine ≤ line)
    (inside : SpanWithin o.element.startLine line o.children.reverse) (ends : line ≤ mid)
    (le : mid ≤ last) (rest : SpanWithin mid last es) :
    SpanWithin first last (o.close line :: es) := by
  have own : (o.close line).SpansChildren := ⟨forward, inside.within, inside.ordered⟩
  refine ⟨?_, ?_, ?_⟩
  · refine List.forall_mem_cons.2 ⟨⟨begins, ends.trans le⟩, fun e there => ?_⟩
    have := rest.within e there
    omega
  · -- What begins behind the element begins no earlier than its last line.
    refine .cons (fun e there => ?_) rest.ordered
    have := (rest.within e there).1
    show o.element.startLine ≤ e.startLine
    omega
  · rw [documentOrder_cons]
    refine List.forall_mem_cons.2 ⟨own, fun e there => ?_⟩
    rcases List.mem_append.1 there with inner | later
    · exact inside.all e inner
    · exact rest.all e later

end SpanWithin

/-- What a start tag says of the element that it opens. -/
theorem openElement_eq_ok {content : List Char} {line : Nat} {stack : List OpenElement}
    {opened : OpenElement} (h : openElement content line stack = .ok opened) :
    ∃ attributes, Attributes.ofTag content = .ok attributes ∧
      opened.element.localName = String.ofList (splitName (tagName content)).2 ∧
      opened.element.attributes = attributes.plain ∧ opened.element.startLine = line ∧
      opened.children = [] := by
  cases read : Attributes.ofTag content with
  | error fault => simp only [openElement, read, bind, Except.bind] at h; cases h
  | ok attributes =>
    simp only [openElement, read, bind, Except.bind] at h
    cases h
    exact ⟨attributes, rfl, rfl, rfl, rfl, rfl⟩

section Folding

variable {lineOf : Nat → Nat} {scope : List (List Char × String)} {tokens : List Token}
  {c : Interior} {lo hi : Nat}

/-- The lines of what stands in an element lie within those of its tokens. -/
theorem Reads.spanWithin (mono : Monotone lineOf) (h : Reads lineOf scope tokens c)
    (order : InOrder lo tokens hi) : SpanWithin (lineOf lo) (lineOf hi) c.children := by
  induction h generalizing lo hi with
  | nil => exact .nil
  | remark _ _ ih | text _ _ _ ih | characterData _ _ ih =>
    cases order with
    | cons behind solid rest =>
      exact (ih rest).weaken (mono (by omega)) (Nat.le_refl _)
  | @empty _ token _ _ _ opened _ opens _ ih =>
    cases order with
    | cons behind solid rest =>
      obtain ⟨-, -, -, -, line, childless⟩ := openElement_eq_ok opens
      refine .cons_close ?_ ?_ ?_ (mono (Nat.sub_le _ 1)) (mono rest.le) (ih rest)
      · rw [line]
        exact mono behind
      · rw [line]
        exact mono (by omega)
      · rw [childless]
        exact .nil
  | @element _ first last inner tokens inside c _ opened _ opens _ _ _ ihIn ih =>
    cases order with
    | cons behind solid rest =>
      obtain ⟨mid, within, rest⟩ := rest.exists_between
      cases rest with
      | cons behind' solid' rest =>
        obtain ⟨-, -, -, -, line, childless⟩ := openElement_eq_ok opens
        have line : (opened.filled inside).element.startLine = lineOf first.start := line
        have children : (opened.filled inside).children.reverse = inside.children := by
          simp [OpenElement.filled, childless]
        have le := within.le
        -- The children lie between the two tags of the element.
        refine .cons_close ?_ ?_ ?_ (mono (Nat.sub_le _ 1)) (mono rest.le) (ih rest)
        · rw [line]
          exact mono behind
        · rw [line]
          exact mono (by omega)
        · rw [line, children]
          exact (ihIn within).weaken (mono (by omega)) (mono (by omega))

/-! ## Tags and the elements that they open -/

/-- What a tag says that opens an element, and what stands behind that. -/
def Piece.opening? : Piece → Option (List Char × List Char)
  | opening content => some (content, ['>'])
  | empty content => some (content, ['/', '>'])
  | closing _ | text _ | characterData _ | remark => none

/-- The tags that open elements, in their order. -/
def openings (tokens : List Token) : List Token :=
  tokens.filter fun t => t.piece.opening?.isSome

/-- The opening tags of two runs of tokens are those of the first, then those of the second. -/
theorem openings_append (tokens more : List Token) :
    openings (tokens ++ more) = openings tokens ++ openings more :=
  List.filter_append ..

theorem openings_cons_of_isSome {t : Token} (opens : t.piece.opening?.isSome = true) :
    openings (t :: tokens) = t :: openings tokens :=
  List.filter_cons_of_pos opens

theorem openings_cons_of_none {t : Token} (other : t.piece.opening? = none) :
    openings (t :: tokens) = openings tokens :=
  List.filter_cons_of_neg (by rw [other]; exact Bool.false_ne_true)

/-- An element has the name and the attributes that a start tag says. -/
structure IsCalled (content : List Char) (e : Element) : Prop where
  localName : e.localName = String.ofList (splitName (tagName content)).2
  attributes : ∃ read, Attributes.ofTag content = .ok read ∧ e.attributes = read.plain

/-- A token is the tag that opens an element, at the line of the element. -/
structure Opens (lineOf : Nat → Nat) (t : Token) (e : Element) : Prop where
  tag : ∃ content close, t.piece.opening? = some (content, close) ∧ IsCalled content e
  startLine : e.startLine = lineOf t.start

/-- The element that a tag opens is called as the tag says and begins at its line, whatever is read
inside of it. -/
theorem opens_of_openElement {t : Token} {content close : List Char} {stack : List OpenElement}
    {opened : OpenElement} (is : t.piece.opening? = some (content, close))
    (opens : openElement content (lineOf t.start) stack = .ok opened) (inside : Interior)
    (line : Nat) : Opens lineOf t ((opened.filled inside).close line) := by
  obtain ⟨read, attributes, name, plain, started, -⟩ := openElement_eq_ok opens
  exact ⟨⟨content, close, is, name, read, attributes, plain⟩, started⟩

/-- The elements in document order are those that the tags open in turn. -/
theorem Reads.openings (h : Reads lineOf scope tokens c) :
    List.Forall₂ (Opens lineOf) (openings tokens) (documentOrder c.children) := by
  induction h with
  | nil => exact .nil
  | remark piece _ ih | text piece _ _ ih | characterData piece _ ih =>
    rwa [openings_cons_of_none (by rw [piece]; rfl)]
  | @empty _ token _ c _ opened piece opens _ ih =>
    have is := congrArg Piece.opening? piece
    obtain ⟨-, -, -, -, -, childless⟩ := openElement_eq_ok opens
    show List.Forall₂ _ _ (documentOrder (opened.close (lineOf (token.stop - 1)) :: c.children))
    have none : documentOrder (opened.close (lineOf (token.stop - 1))).children = [] := by
      rw [OpenElement.close, childless]
      rfl
    rw [openings_cons_of_isSome (by rw [is]; rfl), documentOrder_cons, none, List.nil_append]
    refine .cons ?_ ih
    rw [← opened.filled_nil]
    exact opens_of_openElement is opens {} _
  | @element _ first last inner tokens inside c _ opened start opens _ stop _ ihIn ih =>
    have is := congrArg Piece.opening? start
    obtain ⟨-, -, -, -, -, childless⟩ := openElement_eq_ok opens
    show List.Forall₂ _ _ (documentOrder
      ((opened.filled inside).close (lineOf (last.stop - 1)) :: c.children))
    have children : ((opened.filled inside).close (lineOf (last.stop - 1))).children
        = inside.children := by
      simp [OpenElement.close, OpenElement.filled, childless]
    rw [openings_cons_of_isSome (by rw [is]; rfl), openings_append,
      openings_cons_of_none (t := last) (by rw [stop]; rfl), documentOrder_cons, children]
    exact .cons (opens_of_openElement is opens inside _) (List.rel_append ihIn ih)

end Folding

/-! ## The first element -/

section First

variable {lineOf : Nat → Nat} {scope : List (List Char × String)} {tokens : List Token}
  {e : Element}

/-- An element by itself may stand in another one. -/
theorem IsElement.reads (h : IsElement lineOf scope tokens e) :
    Reads lineOf scope tokens (.ofChild e ++ {}) := by
  cases h with
  | empty piece opens => exact .empty piece opens .nil
  | tagged start opens within stop => exact .element start opens within stop .nil

/-- In front of the first element, there are no tags. -/
theorem Forest.exists_first {es : List Element} (h : Forest lineOf tokens (e :: es)) :
    ∃ aside front more, tokens = aside ++ (front ++ more) ∧ openings aside = [] ∧
      IsElement lineOf [] front e := by
  generalize all : e :: es = found at h
  induction h with
  | nil => cases all
  | @aside token _ _ piece _ ih =>
    obtain ⟨aside, front, more, rfl, noTag, first⟩ := ih all
    refine ⟨token :: aside, front, more, rfl, ?_, first⟩
    rw [openings_cons_of_none, noTag]
    cases is : token.piece with
    | text raw | characterData raw | remark => rfl
    | opening | empty | closing => rw [is] at piece; cases piece
  | @element front more _ _ first =>
    cases all
    exact ⟨[], front, more, rfl, rfl, first⟩

/-- In the tree of a document, the elements are those of the first element that is reported. -/
theorem exists_reads_of_treeOfTokens {reported : Scan}
    (accepted : treeOfTokens lineOf reported = .ok e) :
    ∃ aside front more c, reported.tokens = aside ++ (front ++ more) ∧ openings aside = [] ∧
      Reads lineOf [] front c ∧ c.children = [e] := by
  obtain ⟨-, rest, forest⟩ := treeOfTokens_eq_ok_iff_forest.1 accepted
  obtain ⟨aside, front, more, split, noTag, first⟩ := forest.exists_first
  exact ⟨aside, front, more, _, split, noTag, first.reads, rfl⟩

/-- The elements of the tree of a document span their children. -/
theorem spansChildren_of_treeOfTokens (mono : Monotone lineOf) {reported : Scan} {lo hi : Nat}
    (order : InOrder lo reported.tokens hi) (accepted : treeOfTokens lineOf reported = .ok e) :
    ∀ d ∈ e.preorder, d.SpansChildren := by
  obtain ⟨aside, front, more, c, split, -, reads, only⟩ := exists_reads_of_treeOfTokens accepted
  rw [split] at order
  obtain ⟨mid, -, order⟩ := order.exists_between
  obtain ⟨mid', order, -⟩ := order.exists_between
  have spans := reads.spanWithin mono order
  rw [only] at spans
  exact documentOrder_singleton e ▸ spans.all

/-- In document order, they are those that the first tags open in turn. -/
theorem openings_of_treeOfTokens {reported : Scan}
    (accepted : treeOfTokens lineOf reported = .ok e) :
    List.Forall₂ (Opens lineOf) ((openings reported.tokens).take e.preorder.length)
      e.preorder := by
  obtain ⟨aside, front, more, c, split, noTag, reads, only⟩ := exists_reads_of_treeOfTokens accepted
  have opened := reads.openings
  rw [only, documentOrder_singleton] at opened
  rwa [split, openings_append, openings_append, noTag, List.nil_append,
    List.take_left' opened.length_eq]

end First

/-! ## Places of tags -/

/-- The texts between pieces open no element. -/
theorem opening?_of_mem_gapTokens {offset : Nat} {gap : List Char} {t : Token}
    (there : t ∈ gapTokens offset gap) : t.piece.opening? = none := by
  unfold gapTokens at there
  split at there
  · cases there
  · rw [List.mem_singleton.1 there]
    rfl

/-- The token of a gap lies within the gap. -/
theorem inOrder_gapTokens (offset : Nat) (gap : List Char) :
    InOrder offset (gapTokens offset gap) (offset + byteLength gap) := by
  have bounds := @gapTokens_bounds offset gap
  unfold gapTokens at bounds ⊢
  split
  · exact .nil (Nat.le_add_right _ _)
  · rename_i solid
    rw [if_neg solid] at bounds
    obtain ⟨behind, solid, le⟩ := bounds (List.mem_singleton_self _)
    exact .cons behind solid (.nil le)

/-- A scan reports tokens one after the other. -/
theorem Scans.inOrder {offset : Nat} {s : List Char} {r : Scan} (h : Scans offset s r) :
    InOrder offset r.tokens (offset + byteLength s) := by
  induction h with
  | last noPiece => exact inOrder_gapTokens _ _
  | @fault offset gap rest =>
    rw [byteLength_append, ← Nat.add_assoc, ← List.append_nil (gapTokens offset gap)]
    exact (inOrder_gapTokens offset gap).append (.nil (Nat.le_add_right _ _))
  | @piece offset gap body s piece r noPiece isPiece _ ih =>
    rw [add_byteLength_piece, Scan.prepend, List.append_assoc]
    exact (inOrder_gapTokens offset gap).append (.cons (Nat.le_refl _) (by simp only; omega) ih)

/-- Only a tag opens an element. -/
theorem tag_of_opening? {s : List Char} {cut : Cut} (found : pieceAfterOpen s = .ok cut)
    (opens : cut.piece.opening?.isSome = true) : tag s = .ok cut := by
  unfold pieceAfterOpen at found
  split at found
  case h_5 => cases found
  case h_7 => exact found
  all_goals
    -- What any other reader finds is a remark or character data.
    simp only [characterData, comment, doctype, instruction] at found
    repeat' split at found
    all_goals cases found
    all_goals cases opens

/-- What stands between the brackets of a tag that opens an element, with the bracket behind it. -/
theorem IsPiece.eq_of_opening? {body content close : List Char} {piece : Piece}
    (isPiece : IsPiece body piece) (is : piece.opening? = some (content, close)) :
    body ++ ['>'] = content ++ close := by
  have found := tag_of_opening? (isPiece []) (by rw [Cut.upTo, is]; rfl)
  rw [tag] at found
  split at found
  · obtain ⟨same, -, -⟩ := Cut.mk.inj (Except.ok.inj found)
    subst same
    cases is
  · rename_i inner rest _ ends
    have split := (cutTag_cutsAtBracket none _ _ _ ends).1
    obtain ⟨same, -, none⟩ := Cut.mk.inj (Except.ok.inj found)
    rw [none] at split
    obtain rfl := List.append_cancel_right split
    split at same
    · rename_i slash
      subst same
      cases is
      have ends := List.dropLast_append_getLast? _ slash
      rw [← ends, List.dropLast_concat, List.append_assoc]
      rfl
    · subst same
      cases is
      rfl
  · cases found

/-- A scan of the end of a document reports tags at their places. -/
theorem Scans.inPlace {offset : Nat} {s : List Char} {r : Scan} (h : Scans offset s r)
    (front : List Char) (here : byteLength front = offset) :
    ∀ t ∈ r.tokens, ∀ content close, t.piece.opening? = some (content, close) →
      ∃ before after, front ++ s = before ++ '<' :: (content ++ close ++ after) ∧
        t.start = byteLength before ∧
        t.stop = byteLength before + (byteLength content + byteLength close + 1) := by
  induction h generalizing front with
  | last | fault =>
    intro t there content close is
    rw [opening?_of_mem_gapTokens there] at is
    cases is
  | @piece offset gap body s piece r noPiece isPiece _ ih =>
    intro t there content close is
    -- The token is that of the text in front, that of the piece itself, or one behind it.
    rcases List.mem_append.1 there with near | back
    · rcases List.mem_append.1 near with text | own
      · rw [opening?_of_mem_gapTokens text] at is
        cases is
      · obtain rfl := List.mem_singleton.1 own
        have written := isPiece.eq_of_opening? is
        have size := congrArg byteLength written
        have bracket : '>'.utf8Size = 1 := rfl
        rw [byteLength_append, byteLength_append, byteLength_cons, bracket, byteLength_nil] at size
        refine ⟨front ++ gap, s, ?_, ?_, ?_⟩
        · rw [← written]
          simp
        · rw [byteLength_append, here]
        · rw [byteLength_append, here]
          simp only
          omega
    · have next : byteLength (front ++ (gap ++ '<' :: (body ++ ['>'])))
          = offset + byteLength gap + byteLength body + 2 := by
        rw [byteLength_append, here, add_byteLength_piece, byteLength_nil, Nat.add_zero]
      have placed := ih _ next t back content close is
      simpa using placed

/-! ## Lines of documents -/

/-- The mark of the byte order of a document, if it has one. -/
def markOf (s : List Char) : List Char :=
  if s.head? = some byteOrderMark then [byteOrderMark] else []

/-- A document is its mark, then the document without its mark. -/
theorem markOf_append_withoutMark (s : List Char) : markOf s ++ withoutMark s = s := by
  unfold markOf withoutMark
  split
  · rename_i marked
    obtain ⟨rest, rfl⟩ := List.head?_eq_some_iff.1 marked
    rfl
  · rfl

/-- The line feeds of a document stand behind its mark. -/
theorem lineFeeds_eq_withoutMark (s : List Char) :
    lineFeeds 0 s = lineFeeds (byteLength (markOf s)) (withoutMark s) := by
  have noFeed : '\n' ∉ markOf s := by
    unfold markOf
    split
    · decide
    · exact List.not_mem_nil
  have split := lineFeeds_append 0 (markOf s) (withoutMark s)
  rwa [markOf_append_withoutMark, lineFeeds_eq_nil noFeed, List.nil_append, Nat.zero_add] at split

/-- A tag stands behind some text of a document, where its offsets say if the mark of the document
does not count.  Of the line feeds in this text, the element that the tag opens counts those that
have as many bytes behind them as the mark has. -/
structure OpensBehind (doc before : List Char) (t : Token) (e : Element) : Prop where
  tag : ∃ content close after, t.piece.opening? = some (content, close) ∧ IsCalled content e ∧
    doc = markOf doc ++ (before ++ '<' :: (content ++ close ++ after)) ∧
    t.stop = byteLength before + (byteLength content + byteLength close + 1)
  start : t.start = byteLength before
  startLine : e.startLine = (1 + feedsFollowedBy (byteLength (markOf doc)) before) % UInt32.size

/-- In a document with few lines, an element begins at the line that its tag is on exactly if no
line feed stands close in front of the tag, or there is no mark. -/
theorem OpensBehind.startLine_eq_iff {doc before : List Char} {t : Token} {e : Element}
    (h : OpensBehind doc before t e) (few : doc.count '\n' + 1 < UInt32.size) :
    e.startLine = 1 + before.count '\n' ↔
      ∀ early late, before = early ++ '\n' :: late → byteLength (markOf doc) ≤ byteLength late := by
  obtain ⟨_, _, _, -, -, split, -⟩ := h.tag
  have within : before.count '\n' ≤ doc.count '\n' := by
    rw [split, List.count_append, List.count_append]
    omega
  have le := feedsFollowedBy_le_count (byteLength (markOf doc)) before
  rw [h.startLine, Nat.mod_eq_of_lt (by omega), Nat.add_left_cancel_iff]
  exact feedsFollowedBy_eq_count_iff

/-- The tokens of a document; their offsets do not count the mark of the byte order. -/
def tokensOf (content : String) : List Token := (scan (withoutMark content.toList)).tokens

/-- The tokens of a document are a scan of it without its mark. -/
theorem scans_withoutMark (content : String) :
    Scans 0 (withoutMark content.toList) (scan (withoutMark content.toList)) :=
  scan_eq_iff.1 rfl

/-- The tokens of a document stand one after the other, from its begin to its end. -/
theorem inOrder_tokensOf (content : String) :
    InOrder 0 (tokensOf content) (byteLength (withoutMark content.toList)) := by
  have order := (scans_withoutMark content).inOrder
  rwa [Nat.zero_add] at order

/-- A tag of a document opens an element behind the text that its offsets say. -/
theorem Opens.exists_behind {content : String} {t : Token} {e : Element}
    (opens : Opens (lineAt (lineFeeds 0 content.toList)) t e) (there : t ∈ tokensOf content) :
    ∃ before, OpensBehind content.toList before t e := by
  obtain ⟨⟨inner, close, is, called⟩, line⟩ := opens
  obtain ⟨before, after, split, start, stop⟩ :=
    (scans_withoutMark content).inPlace [] rfl t there inner close is
  rw [List.nil_append] at split
  refine ⟨before, ⟨inner, close, after, is, called, ?_, stop⟩, start, ?_⟩
  · rw [← split, markOf_append_withoutMark]
  · rw [line, start, lineFeeds_eq_withoutMark, split, lineAt_byteLength]

/-- **Lines.**  In document order, the elements of the tree of a document are those that its first
tags open.  Each one begins at one more than the line feeds in front of its tag, but for those that
stand so close in front of the tag that the mark of the document matters; without a mark, none do.
If there are fewer lines than 32 bits can count, then every element begins no later than it ends,
its lines span those of its children, and these begin in order. -/
theorem parse_lines {content : String} {e : Element} (accepted : parse content = .ok e) :
    List.Forall₂ (fun t d => ∃ before, OpensBehind content.toList before t d ∧
        (content.toList.count '\n' + 1 < UInt32.size →
          (d.startLine = 1 + before.count '\n' ↔ ∀ early late, before = early ++ '\n' :: late →
            byteLength (markOf content.toList) ≤ byteLength late)))
      ((openings (tokensOf content)).take e.preorder.length) e.preorder ∧
    (content.toList.count '\n' + 1 < UInt32.size → ∀ d ∈ e.preorder, d.SpansChildren) := by
  constructor
  · have placed : ∀ t ∈ (openings (tokensOf content)).take e.preorder.length,
        t ∈ tokensOf content := fun t there => List.mem_of_mem_filter (List.mem_of_mem_take there)
    refine ((List.forall₂_and_left _ _).2 ⟨placed, openings_of_treeOfTokens accepted⟩).imp ?_
    rintro t d ⟨there, opens⟩
    obtain ⟨before, behind⟩ := opens.exists_behind there
    exact ⟨before, behind, behind.startLine_eq_iff⟩
  · intro few
    have all : (lineFeeds 0 content.toList).length = content.toList.count '\n' := length_lineFeeds _
    rw [← all] at few
    exact spansChildren_of_treeOfTokens (monotone_lineAt few) (inOrder_tokensOf content) accepted

/-- An element with two children, which stand on the second and on the third line behind a mark.
The line feeds in front of them stand too close. -/
def markedLines : Element :=
  { localName := "a", startLine := 1, endLine := 4
    children := [{ localName := "b", startLine := 1, endLine := 2 },
      { localName := "c", attributes := [("k", "")], startLine := 2, endLine := 3 }] }

/-- The second element stands on the second line, behind one line feed, and is said to begin on the
first. -/
theorem parse_markedLines :
    parse "\uFEFF<a>\n <b\n/><c k=''/>\n</a>" = .ok markedLines ∧
    (∀ d ∈ markedLines.preorder, d.SpansChildren) ∧
    ∃ b, markedLines.preorder[1]? = some b ∧ b.startLine = 1 ∧
      OpensBehind "\uFEFF<a>\n <b\n/><c k=''/>\n</a>".toList "<a>\n ".toList
        ⟨.empty ['b', '\n'], 5, 10⟩ b ∧
      b.startLine ≠ 1 + "<a>\n ".toList.count '\n' := by
  have accepted : parse "\uFEFF<a>\n <b\n/><c k=''/>\n</a>" = .ok markedLines := rfl
  have few : "\uFEFF<a>\n <b\n/><c k=''/>\n</a>".toList.count '\n' + 1 < UInt32.size := by
    decide
  have tags : (openings (tokensOf "\uFEFF<a>\n <b\n/><c k=''/>\n</a>")).take
      markedLines.preorder.length = [⟨.opening ['a'], 0, 3⟩, ⟨.empty ['b', '\n'], 5, 10⟩,
        ⟨.empty ['c', ' ', 'k', '=', '\'', '\''], 10, 19⟩] := rfl
  obtain ⟨opened, spans⟩ := parse_lines accepted
  rw [tags] at opened
  obtain ⟨before, behind, right⟩ := opened.get (i := 1) (by decide) (by decide)
  -- The text in front of the tag is the only one with that many bytes.
  obtain ⟨_, _, _, -, -, split, -⟩ := behind.tag
  have start : byteLength before = 5 := behind.start.symm
  have marked : "\uFEFF<a>\n <b\n/><c k=''/>\n</a>".toList
      = markOf "\uFEFF<a>\n <b\n/><c k=''/>\n</a>".toList
        ++ "<a>\n <b\n/><c k=''/>\n</a>".toList := by decide
  have front : before <+: "<a>\n <b\n/><c k=''/>\n</a>".toList :=
    ⟨_, (List.append_cancel_left (marked.symm.trans split)).symm⟩
  have only : ∀ n ≤ 24, byteLength ("<a>\n <b\n/><c k=''/>\n</a>".toList.take n) = 5 →
      "<a>\n <b\n/><c k=''/>\n</a>".toList.take n = "<a>\n ".toList := by
    decide
  obtain rfl : before = "<a>\n ".toList := by
    rw [List.prefix_iff_eq_take.1 front] at start ⊢
    exact only _ front.length_le start
  refine ⟨accepted, spans few, _, rfl, rfl, behind, ?_⟩
  intro same
  have far := (right few).1 same ['<', 'a', '>'] [' '] rfl
  exact absurd far (by decide)

end BeanWiring.Markup
