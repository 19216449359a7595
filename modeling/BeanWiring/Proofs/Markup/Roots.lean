/-
# Roots of a document

How many elements of a document stand on their own, and which of them its tree keeps: the first one,
however many there are.  The others have to be complete, or else the document is refused, but
nothing of them is kept and nothing tells that they were there.

Main statements:

* `Forest.rootCount` : the elements of a document are as many as its tags say;
* `treeOfTokens_keeps_first` : which documents have a tree, and what is dropped from it.
-/
import BeanWiring.Proofs.Markup.Nesting

namespace BeanWiring.Markup

/-! ## Counting roots -/

/-- The number of tags that start an element on its own, when `depth` elements are open. -/
def rootCount : (depth : Nat) → List Token → Nat
  | _, [] => 0
  | depth, token :: tokens =>
    let starts := if depth = 0 then 1 else 0
    match token.piece with
    | .opening _ => starts + rootCount (depth + 1) tokens
    | .empty _ => starts + rootCount depth tokens
    | .closing _ => rootCount (depth - 1) tokens
    | .text _ | .characterData _ | .remark => rootCount depth tokens

section Counting

variable {lineOf : Nat → Nat} {scope : List (List Char × String)} {tokens : List Token}

/-- No element that stands in another one stands on its own. -/
theorem Reads.rootCount {c : Interior} (h : Reads lineOf scope tokens c) (depth : Nat)
    (more : List Token) :
    rootCount (depth + 1) (tokens ++ more) = rootCount (depth + 1) more := by
  induction h generalizing depth more with
  | nil => rfl
  | remark piece _ ih | text piece _ _ ih | characterData piece _ ih =>
    rw [List.cons_append, Markup.rootCount, piece]
    exact ih depth more
  | empty piece _ _ ih =>
    rw [List.cons_append, Markup.rootCount, piece, ← ih depth more]
    exact Nat.zero_add _
  | element start _ _ stop _ ihIn ih =>
    rw [List.cons_append, List.append_assoc, Markup.rootCount, start, ← ih depth more]
    refine (Nat.zero_add _).trans ((ihIn (depth + 1) _).trans ?_)
    rw [List.cons_append, Markup.rootCount, stop]
    rfl

theorem IsElement.rootCount {e : Element} (h : IsElement lineOf scope tokens e)
    (more : List Token) : rootCount 0 (tokens ++ more) = rootCount 0 more + 1 := by
  cases h with
  | empty piece _ =>
    rw [List.singleton_append, Markup.rootCount, piece]
    exact Nat.add_comm 1 _
  | tagged start _ within stop =>
    rw [List.cons_append, List.append_assoc, Markup.rootCount, start]
    refine (congrArg (1 + ·) (within.rootCount 0 _)).trans ?_
    rw [List.singleton_append, Markup.rootCount, stop]
    exact Nat.add_comm 1 _

/-- The elements of a document are as many as its tags say. -/
theorem Forest.rootCount {es : List Element} (h : Forest lineOf tokens es) (more : List Token) :
    rootCount 0 (tokens ++ more) = rootCount 0 more + es.length := by
  induction h with
  | nil => rfl
  | @aside token _ _ piece _ ih =>
    rw [List.cons_append, Markup.rootCount]
    cases is : token.piece with
    | text raw | characterData raw | remark => exact ih
    | opening | empty | closing => rw [is] at piece; cases piece
  | element first _ ih =>
    rw [List.append_assoc, first.rootCount, ih, List.length_cons, Nat.add_assoc]

theorem Forest.append {more : List Token} {es es' : List Element} (h : Forest lineOf tokens es)
    (h' : Forest lineOf more es') : Forest lineOf (tokens ++ more) (es ++ es') := by
  induction h with
  | nil => exact h'
  | aside piece _ ih => exact .aside piece ih
  | element first _ ih =>
    rw [List.append_assoc]
    exact .element first ih

end Counting

/-! ## What is kept -/

/-- **Roots.**  A document has a tree if and only if nothing is wrong with its tokens and they are
those of complete elements, at least one of which stands on its own.  The tree is the first of
these, so it is all of the document if and only if there is one root.  Whatever further elements
follow, the tree stays the same. -/
theorem treeOfTokens_keeps_first (lineOf : Nat → Nat) (e : Element) :
    (∀ scan : Scan, treeOfTokens lineOf scan = .ok e ↔
      scan.fault = none ∧ ∃ rest, Forest lineOf scan.tokens (e :: rest) ∧
        rootCount 0 scan.tokens = rest.length + 1) ∧
    (∀ tokens more es, treeOfTokens lineOf ⟨tokens, none⟩ = .ok e → Forest lineOf more es →
      treeOfTokens lineOf ⟨tokens ++ more, none⟩ = .ok e ∧
        rootCount 0 (tokens ++ more) = rootCount 0 tokens + es.length) := by
  constructor
  · intro scan
    rw [treeOfTokens_eq_ok_iff_forest]
    refine and_congr_right fun _ => exists_congr fun rest => ⟨fun forest => ⟨forest, ?_⟩, And.left⟩
    have count := forest.rootCount []
    rwa [List.append_nil, Markup.rootCount, Nat.zero_add] at count
  · intro tokens more es accepted further
    obtain ⟨-, rest, forest⟩ := treeOfTokens_eq_ok_iff_forest.1 accepted
    refine ⟨treeOfTokens_eq_ok_iff_forest.2 ⟨rfl, _, forest.append further⟩, ?_⟩
    have all := (forest.append further).rootCount []
    have first := forest.rootCount []
    rw [List.append_nil] at all first
    rw [all, first, List.length_append, Nat.add_assoc]

/-- Of `<a/><b/>`, the tree keeps `<a/>` and the rest is dropped, though there are two roots. -/
theorem second_root_dropped :
    scan "<a/><b/>".toList = ⟨[⟨.empty ['a'], 0, 4⟩, ⟨.empty ['b'], 4, 8⟩], none⟩ ∧
    treeOfTokens (fun _ => 1) (scan "<a/><b/>".toList)
      = .ok { localName := "a", startLine := 1, endLine := 1 } ∧
    rootCount 0 (scan "<a/><b/>".toList).tokens = 2 := by
  have first : treeOfTokens (fun _ => 1) ⟨[⟨.empty ['a'], 0, 4⟩], none⟩
      = .ok { localName := "a", startLine := 1, endLine := 1 } := rfl
  have second : IsElement (fun _ => 1) [] [⟨.empty ['b'], 4, 8⟩]
      (OpenElement.close ⟨['b'], [], { localName := "b", startLine := 1, endLine := 1 }, []⟩ 1) :=
    .empty rfl rfl
  exact ⟨rfl, (treeOfTokens_keeps_first (fun _ => 1) _).2 _ _ _ first (.element second .nil)⟩

end BeanWiring.Markup
