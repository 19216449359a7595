/-
# Comments

What a comment does to the character data that it is put into.  The reader skips comments and joins
the texts on both sides, but each of them has lost the blanks around it before.  So a comment takes
away the blanks next to it, unless there is nothing but blanks on one side; everything else stays,
lines included, as long as no reference is cut.

Main statements:

* `run_filled` : what an element is filled with is told from the tree;
* `exists_place` : where comments can stand;
* `parse_commented` : when a document with a comment has the same tree as without it.
-/
import BeanWiring.Proofs.Markup.Lines
import BeanWiring.Proofs.Markup.Parts

namespace BeanWiring.Markup

open Text Builder

/-! ## What is told from the tree -/

section Filling

variable {lineOf : Nat → Nat} {top : OpenElement} {rest : List OpenElement} {root : Option Element}

/-- An element tells what it has been filled with. -/
theorem close_filled_inj {c d i : Interior} {line : Nat}
    (same : ((top.filled c).filled i).close line = ((top.filled d).filled i).close line) :
    c = d := by
  have text : top.element.text ++ c.text ++ i.text = top.element.text ++ d.text ++ i.text :=
    congrArg Element.text same
  have children : (i.children.reverse ++ (c.children.reverse ++ top.children)).reverse
      = (i.children.reverse ++ (d.children.reverse ++ top.children)).reverse :=
    congrArg Element.children same
  ext1
  · exact (String.append_right_inj _).1 ((String.append_left_inj _).1 text)
  · exact List.reverse_inj.1 (List.append_cancel_right
      (List.append_cancel_left (List.reverse_inj.1 children)))

/-- If an element is closed in the end, then it is closed in the same way whatever it is filled
with. -/
theorem exists_close_of_run {c : Interior} {tokens : List Token} {root' : Option Element}
    (h : Builder.run lineOf ⟨top.filled c :: rest, root⟩ tokens = .ok ⟨[], root'⟩) :
    ∃ i line more, ∀ d, Builder.run lineOf ⟨top.filled d :: rest, root⟩ tokens
      = Builder.run lineOf (attach ⟨rest, root⟩ (((top.filled d).filled i).close line)) more := by
  obtain ⟨inner, last, more, i, rfl, reads, stop, -⟩ := exists_reads_of_run h
  refine ⟨i, lineOf (last.stop - 1), more, fun d => ?_⟩
  have reads : Reads lineOf (top.filled d).scope inner i := reads
  have stop : last.piece = .closing ((top.filled d).filled i).name := stop
  calc Builder.run lineOf ⟨top.filled d :: rest, root⟩ (inner ++ last :: more)
      = Builder.run lineOf ⟨(top.filled d).filled i :: rest, root⟩ (last :: more) :=
        reads.run rfl _
    _ = _ := run_cons_of_step (.closing stop)

/-- If all elements are closed in the end, then they are whatever one of them is filled with, and
the tree tells what it has been filled with, unless the root was there before. -/
theorem run_filled {c : Interior} {tokens : List Token} {root' : Option Element}
    (h : Builder.run lineOf ⟨top.filled c :: rest, root⟩ tokens = .ok ⟨[], root'⟩) (d : Interior) :
    ∃ e, Builder.run lineOf ⟨top.filled d :: rest, root⟩ tokens = .ok ⟨[], some e⟩ ∧
      (root = none → root' = some e → c = d) := by
  induction rest generalizing top c d tokens with
  | nil =>
    obtain ⟨i, line, more, closed⟩ := exists_close_of_run h
    rw [closed, attach_nil] at h
    obtain ⟨es, forest, found⟩ := exists_forest_of_run h
    rw [closed, attach_nil, forest.run]
    cases root with
    | none =>
      refine ⟨_, rfl, fun _ same => ?_⟩
      exact close_filled_inj (Option.some.inj (found.symm.trans same))
    | some r => exact ⟨r, rfl, nofun⟩
  | cons t rest ih =>
    obtain ⟨i, line, more, closed⟩ := exists_close_of_run h
    rw [closed, attach_cons] at h
    obtain ⟨e, taken, told⟩ := ih h (.ofChild (((top.filled d).filled i).close line))
    refine ⟨e, ?_, fun none same => ?_⟩
    · rw [closed, attach_cons, taken]
    · have child := congrArg Interior.children (told none same)
      exact close_filled_inj (List.cons.inj child).1

end Filling

/-! ## Texts in elements -/

/-- Character data in two parts is character data. -/
theorem ofText_append (s t : List Char) :
    Interior.ofText (s ++ t) = Interior.ofText s ++ Interior.ofText t := by
  ext1
  · exact String.ofList_append
  · rfl

/-- Different texts are different character data. -/
theorem ofText_inj {s t : List Char} (same : Interior.ofText s = .ofText t) : s = t :=
  String.ofList_inj.1 (congrArg Interior.text same)

/-- A comment changes nothing about the tree that is built. -/
theorem run_remark {lineOf : Nat → Nat} {b : Builder} {start stop : Nat} {tokens : List Token} :
    b.run lineOf (⟨.remark, start, stop⟩ :: tokens) = b.run lineOf tokens :=
  run_cons_of_step (.remark rfl)

/-- A text between pieces fills the element that it stands in. -/
theorem run_gapTokens {lineOf : Nat → Nat} {top : OpenElement} {rest : List OpenElement}
    {root : Option Element} {offset : Nat} {gap : List Char} {tokens : List Token} {b : Builder} :
    Builder.run lineOf ⟨top :: rest, root⟩ (gapTokens offset gap ++ tokens) = .ok b ↔
      ∃ s, Means (trimMarkup gap) s ∧
        Builder.run lineOf ⟨top.filled (.ofText s) :: rest, root⟩ tokens = .ok b := by
  unfold gapTokens
  split
  · rename_i blank
    rw [trimMarkup_of_all blank, List.nil_append]
    constructor
    · exact fun h => ⟨[], .nil, by rwa [← top.filled_nil] at h⟩
    · rintro ⟨s, ⟨⟩, h⟩
      rw [← top.filled_nil]
      exact h
  · rw [List.singleton_append]
    constructor
    · intro h
      obtain ⟨b', step, further⟩ := run_cons_eq_ok h
      cases step with
      | text piece meaning =>
        cases piece
        exact ⟨_, unescape_eq_ok_iff.1 meaning, further⟩
      | remark piece | characterData piece | opening piece | empty piece | closing piece =>
        cases piece
    · rintro ⟨s, means, further⟩
      rwa [run_cons_of_step (.text rfl (unescape_eq_ok_iff.2 means))]

/-! ## Places in character data -/

/-- A document without the mark of its byte order. -/
def withoutMark (s : List Char) : List Char :=
  if s.head? = some byteOrderMark then s.tail else s

/-- The mark is taken off the front of a document, whatever follows. -/
theorem withoutMark_append {s : List Char} (nonempty : s ≠ []) (more : List Char) :
    withoutMark (s ++ more) = withoutMark s ++ more := by
  obtain ⟨c, s, rfl⟩ := List.exists_cons_of_ne_nil nonempty
  rw [withoutMark, withoutMark, List.cons_append, List.head?_cons, List.head?_cons]
  split <;> rfl

/-- Without its mark a document is no longer than with it. -/
theorem length_withoutMark_le (s : List Char) : byteLength (withoutMark s) ≤ byteLength s := by
  unfold withoutMark
  split
  · cases s with
    | nil => exact Nat.le_refl _
    | cons c s => exact Nat.le_add_left _ _
  · exact Nat.le_refl _

/-- A document is scanned without its mark, but its lines are counted with it. -/
theorem parse_ofList (s : List Char) :
    parse (String.ofList s) = treeOfTokens (lineAt (lineFeeds 0 s)) (scan (withoutMark s)) := by
  rw [parse, String.toList_ofList]
  rfl

/-- What stands in front of a part of a document stands behind the same mark. -/
theorem exists_withoutMark_eq {front before gap : List Char}
    (split : withoutMark front = before ++ gap) (nonempty : before ≠ []) :
    ∃ whole, front = whole ++ gap ∧ withoutMark whole = before := by
  obtain ⟨c, s, rfl⟩ := List.exists_cons_of_ne_nil nonempty
  unfold withoutMark at split
  split at split <;> rename_i marked
  · obtain ⟨rest, rfl⟩ := List.head?_eq_some_iff.1 marked
    refine ⟨byteOrderMark :: c :: s, congrArg (byteOrderMark :: ·) split, ?_⟩
    rw [withoutMark, if_pos List.head?_cons]
    rfl
  · subst split
    exact ⟨c :: s, rfl, if_neg marked⟩

/-- The lines of whole pieces do not depend on what follows them. -/
theorem run_lineFeeds_append {before : List Char} {tokens : List Token} {b b' : Builder}
    (whole : Whole 0 (withoutMark before) tokens) (more : List Char) :
    Builder.run (lineAt (lineFeeds 0 (before ++ more))) b tokens = .ok b' ↔
      Builder.run (lineAt (lineFeeds 0 before)) b tokens = .ok b' := by
  have line : ∀ offset ≤ byteLength (withoutMark before),
      lineAt (lineFeeds 0 (before ++ more)) offset = lineAt (lineFeeds 0 before) offset := by
    intro offset front
    rw [lineFeeds_append]
    refine lineAt_append_of_le fun f there => ?_
    have := (lineFeeds_bounds there).1
    have := length_withoutMark_le before
    omega
  have same : ∀ t ∈ tokens, SameLines (lineAt (lineFeeds 0 before))
      (lineAt (lineFeeds 0 (before ++ more))) t (id t) := by
    intro t there
    have bounds := whole.bounds there
    rw [Nat.zero_add] at bounds
    exact ⟨rfl, line t.start (by omega), line (t.stop - 1) (by omega)⟩
  have taken : b.run (lineAt (lineFeeds 0 (before ++ more))) (tokens.map id) = .ok b' ↔ _ :=
    run_map_eq_ok_iff same
  rwa [List.map_id] at taken

/-- A place in the character data of an element: behind whole pieces of markup that leave some
element open, in a text that goes up to the next piece. -/
structure Place where
  before : List Char
  left : List Char
  right : List Char
  after : List Char
  tokens : List Token
  whole : Whole 0 (withoutMark before) tokens
  top : OpenElement
  outer : List OpenElement
  root : Option Element
  inside : Builder.run (lineAt (lineFeeds 0 before)) {} tokens = .ok ⟨top :: outer, root⟩
  noPiece : '<' ∉ left ++ right
  stops : Stops after

/-- Outside of all elements, a text between pieces does not count. -/
theorem run_gapTokens_of_nil {lineOf : Nat → Nat} {root : Option Element} (offset : Nat)
    (gap : List Char) :
    Builder.run lineOf ⟨[], root⟩ (gapTokens offset gap) = .ok ⟨[], root⟩ := by
  unfold gapTokens
  split <;> rfl

/-- In a document that has a tree, a position that is not within a piece of markup is a place in the
character data of an element, or else no element is open there. -/
theorem exists_place {front back : List Char} {e : Element}
    (accepted : parse (String.ofList (front ++ back)) = .ok e)
    (outside : (scan (withoutMark front)).fault = none) :
    (∃ p : Place, p.before ++ p.left = front ∧ p.right ++ p.after = back) ∨
      ∃ root, Builder.run (lineAt (lineFeeds 0 front)) {} (scan (withoutMark front)).tokens
        = .ok ⟨[], root⟩ := by
  obtain ⟨before, gap, tokens, split, whole, noPiece⟩ := (scan_eq_iff.1 rfl).exists_whole outside
  have scanned : scan (withoutMark front) = Scan.prepend tokens ⟨gapTokens _ gap, none⟩ :=
    scan_eq_iff.2 (split ▸ whole.scans (.last noPiece))
  rw [scanned]
  by_cases none : before = []
  · subst none
    obtain rfl := whole.eq_nil
    exact .inr ⟨_, run_gapTokens_of_nil _ gap⟩
  · obtain ⟨before, rfl, rfl⟩ := exists_withoutMark_eq split none
    have nonempty : before ≠ [] := by
      rintro rfl
      exact none rfl
    rw [List.append_assoc, parse_ofList, treeOfTokens_eq_ok_iff,
      withoutMark_append nonempty] at accepted
    obtain ⟨r, scannedLater⟩ := exists_scans (0 + byteLength (withoutMark before)) (gap ++ back)
    rw [scan_eq_iff.2 (whole.scans scannedLater)] at accepted
    obtain ⟨b, taken⟩ := exists_run_of_run_append accepted.2
    rw [run_lineFeeds_append whole] at taken
    obtain ⟨_ | ⟨top, outer⟩, root⟩ := b
    · refine .inr ⟨root, ?_⟩
      rw [Scan.prepend, run_append_of_run ((run_lineFeeds_append whole gap).2 taken),
        run_gapTokens_of_nil]
    · obtain ⟨right, after, rfl, noPiece', stops⟩ := exists_stops back
      refine .inl ⟨⟨before, gap, right, after, tokens, whole, top, outer, root, taken, ?_, stops⟩,
        rfl, rfl⟩
      rw [List.mem_append, not_or]
      exact ⟨noPiece, noPiece'⟩

namespace Place

variable (p : Place)

/-- The document that a place is in. -/
def document : String := String.ofList (p.before ++ (p.left ++ (p.right ++ p.after)))

/-- The document with a comment at the place. -/
def commented (text : List Char) : String :=
  String.ofList (p.before ++ (p.left ++ '<' :: (commentBody text ++ '>' :: (p.right ++ p.after))))

/-- Something stands in front of a place: the tag that opened the element around it. -/
theorem before_ne_nil : p.before ≠ [] := by
  intro none
  have whole := p.whole
  have inside := p.inside
  rw [none] at whole
  rw [whole.eq_nil] at inside
  cases inside

/-- What stands behind the pieces in front of a place decides whether the document has a tree, and
which. -/
theorem parse_eq_ok_iff {more : List Char} {r : Scan}
    (scanned : Scans (byteLength (withoutMark p.before)) more r) (e : Element) :
    parse (String.ofList (p.before ++ more)) = .ok e ↔
      r.fault = none ∧
        Builder.run (lineAt (lineFeeds 0 (p.before ++ more))) ⟨p.top :: p.outer, p.root⟩ r.tokens
          = .ok ⟨[], some e⟩ := by
  have all : scan (withoutMark (p.before ++ more)) = r.prepend p.tokens := by
    rw [withoutMark_append p.before_ne_nil, scan_eq_iff]
    refine p.whole.scans ?_
    rwa [Nat.zero_add]
  have front := (run_lineFeeds_append p.whole more).2 p.inside
  rw [parse_ofList, treeOfTokens_eq_ok_iff, all]
  exact and_congr_right fun _ => by rw [Scan.prepend, run_append_of_run front]

/-- The scan of what stands behind the text that a place is in. -/
def later : Scan :=
  scanFrom (p.after.length + 1) (byteLength (withoutMark p.before) + byteLength (p.left ++ p.right))
    p.after

/-- What stands behind the comment has a scan. -/
theorem scans_later :
    Scans (byteLength (withoutMark p.before) + byteLength (p.left ++ p.right)) p.after p.later :=
  (scanFrom_eq_iff (Nat.lt_succ_self _)).1 rfl

/-- What is filled in for the text at a place leads to a tree. -/
def LeadsTo (c : Interior) (e : Element) : Prop :=
  p.later.fault = none ∧
    Builder.run (lineAt (lineFeeds 0 (p.before ++ (p.left ++ (p.right ++ p.after)))))
      ⟨p.top.filled c :: p.outer, p.root⟩ p.later.tokens = .ok ⟨[], some e⟩

/-- If one interior leads to a tree, each one does, and no two lead to the same tree as long as
there is no root yet. -/
theorem exists_leadsTo {c : Interior} {e : Element} (h : p.LeadsTo c e) (d : Interior) :
    ∃ e', p.LeadsTo d e' ∧ (p.root = none → e = e' → c = d) := by
  obtain ⟨e', taken, told⟩ := run_filled h.2 d
  exact ⟨e', ⟨h.1, taken⟩, fun none same => told none (congrArg some same)⟩

/-- An interior leads to one tree only. -/
theorem LeadsTo.unique {c : Interior} {e e' : Element} (h : p.LeadsTo c e) (h' : p.LeadsTo c e') :
    e = e' := by
  have same := h.2.symm.trans h'.2
  cases same
  rfl

/-- Without a comment, the text is filled in as a whole. -/
theorem parse_document_eq_ok_iff {e : Element} :
    parse p.document = .ok e ↔
      ∃ s, Means (trimMarkup (p.left ++ p.right)) s ∧ p.LeadsTo (.ofText s) e := by
  have scanned := p.scans_later.prepend_gap p.noPiece p.stops
  rw [List.append_assoc] at scanned
  rw [document, p.parse_eq_ok_iff scanned, Scan.prepend, run_gapTokens]
  constructor
  · rintro ⟨sound, s, means, taken⟩
    exact ⟨s, means, sound, taken⟩
  · rintro ⟨s, means, sound, taken⟩
    exact ⟨sound, s, means, taken⟩

section Commented

variable {text : List Char} (closed : ¬ ['-', '-', '>'] <:+: text) (oneLine : '\n' ∉ text)
  (steady : p.before.head? = some byteOrderMark → ∀ f ∈ lineFeeds 0 (p.before ++ p.left),
    f < byteLength (withoutMark p.before ++ p.left))

include oneLine steady in
/-- Behind a place, lines stay the same when a comment is put in, if no line feed stands so close in
front of it that the mark of the byte order matters. -/
theorem lineAt_behind {offset : Nat}
    (behind : byteLength (withoutMark p.before) + byteLength p.left ≤ offset) (more : List Char) :
    lineAt (lineFeeds 0 (p.before ++ (p.left ++ '<' :: (commentBody text ++ '>' :: more))))
        (offset + (byteLength (commentBody text) + 2))
      = lineAt (lineFeeds 0 (p.before ++ (p.left ++ more))) offset := by
  have noFeed : '\n' ∉ '<' :: (commentBody text ++ ['>']) := by
    simp [commentBody, oneLine]
  have size : byteLength ('<' :: (commentBody text ++ ['>'])) = byteLength (commentBody text) + 2 :=
    byteLength_piece _ []
  have whole : '<' :: (commentBody text ++ '>' :: more)
      = '<' :: (commentBody text ++ ['>']) ++ more := by
    simp
  have front : ∀ f ∈ lineFeeds 0 (p.before ++ p.left), f < offset := by
    intro f there
    by_cases marked : p.before.head? = some byteOrderMark
    · have := steady marked f there
      rw [byteLength_append] at this
      omega
    · have := (lineFeeds_bounds there).2
      rw [withoutMark, if_neg marked] at behind
      rw [byteLength_append] at this
      omega
  have split : ∀ s, lineFeeds 0 (p.before ++ (p.left ++ s))
      = lineFeeds 0 (p.before ++ p.left) ++ lineFeeds (byteLength (p.before ++ p.left)) s := by
    intro s
    rw [← List.append_assoc, lineFeeds_append, Nat.zero_add]
  rw [whole, split, split, lineFeeds_append_of_notMem noFeed, size, lineAt_insert front]

include closed oneLine steady in
/-- With a comment, the texts on both sides are filled in one after the other. -/
theorem parse_commented_eq_ok_iff {e : Element} :
    parse (p.commented text) = .ok e ↔
      ∃ s t, Means (trimMarkup p.left) s ∧ Means (trimMarkup p.right) t ∧
        p.LeadsTo (.ofText (s ++ t)) e := by
  obtain ⟨noLeft, noRight⟩ : '<' ∉ p.left ∧ '<' ∉ p.right := by
    simpa only [List.mem_append, not_or] using p.noPiece
  have scannedLater := p.scans_later.shift (byteLength (commentBody text) + 2)
  have places : byteLength (withoutMark p.before) + byteLength (p.left ++ p.right)
        + (byteLength (commentBody text) + 2)
      = byteLength (withoutMark p.before) + byteLength p.left + byteLength (commentBody text) + 2
        + byteLength p.right := by
    rw [byteLength_append]
    omega
  rw [places] at scannedLater
  have scanned := Scans.piece noLeft (isPiece_commentBody closed)
    (scannedLater.prepend_gap noRight p.stops)
  have same : ∀ t ∈ p.later.tokens, SameLines
      (lineAt (lineFeeds 0 (p.before ++ (p.left ++ (p.right ++ p.after)))))
      (lineAt (lineFeeds 0 (p.before ++
        (p.left ++ '<' :: (commentBody text ++ '>' :: (p.right ++ p.after))))))
      t (t.shift (byteLength (commentBody text) + 2)) := by
    intro t there
    have bounds := p.scans_later.bounds there
    rw [byteLength_append] at bounds
    refine ⟨rfl, p.lineAt_behind oneLine steady (by omega) _, ?_⟩
    have last : byteLength (withoutMark p.before) + byteLength p.left ≤ t.stop - 1 := by omega
    have line := p.lineAt_behind oneLine steady last (p.right ++ p.after)
    rwa [← Nat.sub_add_comm (by omega)] at line
  have sound : (p.later.shift (byteLength (commentBody text) + 2)).fault = none ↔
      p.later.fault = none := Option.map_eq_none_iff
  rw [commented, p.parse_eq_ok_iff scanned, Scan.prepend, Scan.prepend, sound, List.append_assoc,
    run_gapTokens]
  simp only [List.singleton_append, run_remark, run_gapTokens]
  constructor
  · rintro ⟨sound, s, means, t, means', taken⟩
    refine ⟨s, t, means, means', sound, ?_⟩
    rw [ofText_append, ← OpenElement.filled_append]
    exact (run_map_eq_ok_iff same).1 taken
  · rintro ⟨s, t, means, means', sound, taken⟩
    rw [ofText_append, ← OpenElement.filled_append] at taken
    exact ⟨sound, s, means, t, means', (run_map_eq_ok_iff same).2 taken⟩

end Commented

end Place

/-- **Comments.**  Put a comment on one line at a place in the character data of an element.  A
document that was refused stays refused.  One that had a tree has one if and only if no reference is
cut.  Then the tree is the same if no blanks stand next to the comment between other characters, and
in the root element only if there are none.  Lines count as long as no line feed stands so close in
front of the place that a mark of the byte order matters. -/
theorem parse_commented (p : Place) {text : List Char} (closed : ¬ ['-', '-', '>'] <:+: text)
    (oneLine : '\n' ∉ text)
    (steady : p.before.head? = some byteOrderMark → ∀ f ∈ lineFeeds 0 (p.before ++ p.left),
      f < byteLength (withoutMark p.before ++ p.left)) :
    (∀ e, parse (p.commented text) = .ok e → ∃ e', parse p.document = .ok e') ∧
    ∀ e, parse p.document = .ok e →
      ((∃ e', parse (p.commented text) = .ok e') ↔ ∃ s, unescape p.left = .ok s) ∧
      ∀ e', parse (p.commented text) = .ok e' →
        (blanksBetween p.left p.right = [] → e' = e) ∧
        (p.root = none → e' = e → blanksBetween p.left p.right = []) := by
  have commented := fun e => p.parse_commented_eq_ok_iff closed oneLine steady (e := e)
  refine ⟨fun e accepted => ?_, fun e accepted => ⟨⟨?_, ?_⟩, fun e' accepted' => ?_⟩⟩
  · obtain ⟨s, t, means, means', leads⟩ := (commented e).1 accepted
    obtain ⟨e', leads', -⟩ := p.exists_leadsTo leads
      (.ofText (s ++ (blanksBetween p.left p.right ++ t)))
    exact ⟨e', p.parse_document_eq_ok_iff.2
      ⟨_, (means_trimMarkup_append_iff means).2 ⟨t, means', rfl⟩, leads'⟩⟩
  · rintro ⟨e', accepted'⟩
    obtain ⟨s, _, means, -⟩ := (commented e').1 accepted'
    obtain ⟨t, means⟩ := exists_means_trimMarkup_iff.1 ⟨s, means⟩
    exact ⟨t, unescape_eq_ok_iff.2 means⟩
  · rintro ⟨s, whole⟩
    obtain ⟨s, means⟩ := exists_means_trimMarkup_iff.2 ⟨s, unescape_eq_ok_iff.1 whole⟩
    obtain ⟨u, both, leads⟩ := p.parse_document_eq_ok_iff.1 accepted
    obtain ⟨t, means', -⟩ := (means_trimMarkup_append_iff means).1 both
    obtain ⟨e', leads', -⟩ := p.exists_leadsTo leads (.ofText (s ++ t))
    exact ⟨e', (commented e').2 ⟨s, t, means, means', leads'⟩⟩
  · obtain ⟨s, t, means, means', leads'⟩ := (commented e').1 accepted'
    obtain ⟨u, both, leads⟩ := p.parse_document_eq_ok_iff.1 accepted
    obtain ⟨t', means'', rfl⟩ := (means_trimMarkup_append_iff means).1 both
    obtain rfl := means'.unique means''
    constructor
    · intro none
      rw [none, List.nil_append] at leads
      exact Place.LeadsTo.unique p leads' leads
    · intro none same
      obtain ⟨e'', leads'', told⟩ := p.exists_leadsTo leads (.ofText (s ++ t))
      have lost := ofText_inj (told none (same.symm.trans (Place.LeadsTo.unique p leads' leads'')))
      exact List.append_left_eq_self.1 (List.append_cancel_left lost)

/-- The place behind the blank in `<v>x y</v>`. -/
def behindBlank : Place where
  before := "<v>".toList
  left := ['x', ' ']
  right := ['y']
  after := "</v>".toList
  tokens := [⟨.opening ['v'], 0, 3⟩]
  whole :=
    have isPiece : IsPiece ['v'] (.opening ['v']) := fun _ => rfl
    .cons List.not_mem_nil isPiece .nil
  top :=
    { name := ['v'], scope := []
      element := { localName := "v", startLine := 1, endLine := 1 } }
  outer := []
  root := none
  inside := rfl
  noPiece := by decide
  stops := stops_open _

/-- With a comment behind it, the blank in `<v>x y</v>` is lost. -/
theorem parse_behindBlank :
    behindBlank.document = "<v>x y</v>" ∧ behindBlank.commented ['c'] = "<v>x <!--c-->y</v>" ∧
    ∃ e e', parse behindBlank.document = .ok e ∧ parse (behindBlank.commented ['c']) = .ok e' ∧
      e.text = "x y" ∧ e'.text = "xy" ∧ e' ≠ e := by
  have closed : ¬ ['-', '-', '>'] <:+: ['c'] := by decide
  have accepted : parse behindBlank.document
      = .ok { localName := "v", text := "x y", startLine := 1, endLine := 1 } := rfl
  have accepted' : parse (behindBlank.commented ['c'])
      = .ok { localName := "v", text := "xy", startLine := 1, endLine := 1 } := rfl
  have comment := parse_commented behindBlank closed (by decide) (fun marked => by cases marked)
  refine ⟨rfl, rfl, _, _, accepted, accepted', rfl, rfl, fun same => ?_⟩
  cases ((comment.2 _ accepted).2 _ accepted').2 rfl same

end BeanWiring.Markup
