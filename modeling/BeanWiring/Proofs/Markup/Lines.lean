/-
# Lines

At which lines the tokens of a document are found, and what becomes of them when something without
a line feed is put into the document.  Besides what they say, only their lines matter to the tree.

Main statements:

* `lineAt_byteLength` : which line feeds in front of a place make its line;
* `monotone_lineAt` : lines do not go back, as long as a text has fewer than 32 bits can count;
* `lineAt_insert` : behind what is put in, the lines stay the same;
* `run_map_eq_ok_iff` : tokens that say the same at the same lines are taken in alike.
-/
import Mathlib.Order.Monotone.Defs
import Mathlib.Order.Nat
import BeanWiring.Proofs.Markup.Nesting

namespace BeanWiring.Markup

open Text

/-! ## Line feeds -/

section LineFeeds

variable (offset : Nat)

/-- The line feeds of two texts in a row, those of the second moved by the bytes of the first. -/
theorem lineFeeds_append (s t : List Char) :
    lineFeeds offset (s ++ t) = lineFeeds offset s ++ lineFeeds (offset + byteLength s) t := by
  induction s generalizing offset with
  | nil => rfl
  | cons c s ih =>
    simp only [List.cons_append, lineFeeds, ih, byteLength_cons, Nat.add_assoc]
    split <;> rfl

/-- Line feeds are moved along with their text. -/
theorem lineFeeds_add (n : Nat) (s : List Char) :
    lineFeeds (offset + n) s = (lineFeeds offset s).map (· + n) := by
  induction s generalizing offset with
  | nil => rfl
  | cons c s ih =>
    rw [lineFeeds, Nat.add_right_comm, ih, lineFeeds]
    split <;> rfl

variable {offset}

/-- There is one offset for each line feed. -/
theorem length_lineFeeds (s : List Char) : (lineFeeds offset s).length = s.count '\n' := by
  induction s generalizing offset with
  | nil => rfl
  | cons c s ih =>
    rw [lineFeeds, List.count_cons]
    split
    · rename_i feed
      rw [List.length_cons, ih, feed]
      rfl
    · rename_i other
      rw [ih, if_neg (by simpa using other)]
      rfl

theorem lineFeeds_eq_nil {s : List Char} (noFeed : '\n' ∉ s) : lineFeeds offset s = [] := by
  induction s generalizing offset with
  | nil => rfl
  | cons c s ih =>
    rw [List.mem_cons, not_or] at noFeed
    rw [lineFeeds, ih noFeed.2]
    exact if_neg (Ne.symm noFeed.1)

/-- Behind something without a line feed, the line feeds are further back. -/
theorem lineFeeds_append_of_notMem {s : List Char} (noFeed : '\n' ∉ s) (t : List Char) :
    lineFeeds offset (s ++ t) = (lineFeeds offset t).map (· + byteLength s) := by
  rw [lineFeeds_append, lineFeeds_eq_nil noFeed, List.nil_append, lineFeeds_add]

/-- A line feed is found behind what stands in front of it. -/
theorem mem_lineFeeds_iff {s : List Char} {f : Nat} :
    f ∈ lineFeeds offset s ↔
      ∃ early late, s = early ++ '\n' :: late ∧ f = offset + byteLength early := by
  induction s generalizing offset with
  | nil => simp [lineFeeds]
  | cons c s ih =>
    have behind : f ∈ lineFeeds (offset + c.utf8Size) s ↔
        ∃ early late, s = early ++ '\n' :: late ∧ f = offset + byteLength (c :: early) := by
      rw [ih]
      simp only [byteLength_cons, Nat.add_assoc]
    rw [lineFeeds]
    constructor
    · intro there
      split at there
      · rename_i feed
        rcases List.mem_cons.1 there with rfl | back
        · exact ⟨[], s, by rw [feed]; rfl, rfl⟩
        · obtain ⟨early, late, rfl, place⟩ := behind.1 back
          exact ⟨c :: early, late, rfl, place⟩
      · obtain ⟨early, late, rfl, place⟩ := behind.1 there
        exact ⟨c :: early, late, rfl, place⟩
    · rintro ⟨early, late, split, place⟩
      cases early with
      | nil =>
        obtain ⟨rfl, rfl⟩ := List.cons.inj split
        rw [if_pos rfl, place]
        exact List.mem_cons_self
      | cons d early =>
        obtain ⟨rfl, rfl⟩ := List.cons.inj split
        have back := behind.2 ⟨early, late, rfl, place⟩
        split
        · exact List.mem_cons_of_mem _ back
        · exact back

/-- Line feeds stand within their text. -/
theorem lineFeeds_bounds {s : List Char} {f : Nat} (there : f ∈ lineFeeds offset s) :
    offset ≤ f ∧ f < offset + byteLength s := by
  obtain ⟨early, late, rfl, rfl⟩ := mem_lineFeeds_iff.1 there
  have size : byteLength ('\n' :: late) = 1 + byteLength late := rfl
  rw [byteLength_append, size]
  omega

/-! ### Line feeds with something behind them -/

/-- How many line feeds of a text have at least `n` bytes of the text behind them. -/
def feedsFollowedBy (n : Nat) : List Char → Nat
  | [] => 0
  | c :: s => feedsFollowedBy n s + if c = '\n' ∧ n ≤ byteLength s then 1 else 0

/-- If offsets are counted from `n` bytes further on, then the line feeds are found in front of the
end of the text that have `n` bytes behind them. -/
theorem countP_lineFeeds (n offset : Nat) (s : List Char) :
    (lineFeeds (offset + n) s).countP (· < offset + byteLength s) = feedsFollowedBy n s := by
  induction s generalizing offset with
  | nil => rfl
  | cons c s ih =>
    have rest : (lineFeeds (offset + n + c.utf8Size) s).countP (· < offset + byteLength (c :: s))
        = feedsFollowedBy n s := by
      rw [← ih (offset + c.utf8Size), byteLength_cons, ← Nat.add_assoc offset,
        Nat.add_right_comm offset n]
    rw [lineFeeds, feedsFollowedBy, ← rest]
    by_cases feed : c = '\n'
    · subst feed
      have size : byteLength ('\n' :: s) = 1 + byteLength s := rfl
      have inFront : offset + n < offset + byteLength ('\n' :: s) ↔ n ≤ byteLength s := by omega
      simp only [if_true, List.countP_cons, decide_eq_true_eq, inFront, true_and]
    · simp only [feed, if_false, false_and, Nat.add_zero]

/-- Line feeds have `n` bytes behind them if they stay in the text when moved on by `n` bytes. -/
theorem feedsFollowedBy_eq_countP (n : Nat) (s : List Char) :
    feedsFollowedBy n s = (lineFeeds n s).countP (· < byteLength s) := by
  have counted := countP_lineFeeds n 0 s
  rw [Nat.zero_add, Nat.zero_add] at counted
  exact counted.symm

/-- No more line feeds count than there are. -/
theorem feedsFollowedBy_le_count (n : Nat) (s : List Char) :
    feedsFollowedBy n s ≤ s.count '\n' := by
  have all : (lineFeeds n s).length = s.count '\n' := length_lineFeeds s
  rw [feedsFollowedBy_eq_countP, ← all]
  exact List.countP_le_length

/-- All line feeds of a text count exactly if none of them stands close to its end. -/
theorem feedsFollowedBy_eq_count_iff {n : Nat} {s : List Char} :
    feedsFollowedBy n s = s.count '\n' ↔
      ∀ early late, s = early ++ '\n' :: late → n ≤ byteLength late := by
  have inFront : ∀ early late : List Char,
      byteLength early + n < byteLength (early ++ '\n' :: late) ↔ n ≤ byteLength late := by
    intro early late
    have size : byteLength ('\n' :: late) = 1 + byteLength late := rfl
    rw [byteLength_append, size]
    omega
  rw [feedsFollowedBy_eq_countP, ← length_lineFeeds, List.countP_eq_length]
  constructor
  · intro all early late split
    have before := all _ (mem_lineFeeds_iff.2 ⟨early, late, split, rfl⟩)
    rw [decide_eq_true_eq, Nat.add_comm, split] at before
    exact (inFront early late).1 before
  · intro far f there
    obtain ⟨early, late, split, rfl⟩ := mem_lineFeeds_iff.1 there
    rw [decide_eq_true_eq, Nat.add_comm, split]
    exact (inFront early late).2 (far early late split)

end LineFeeds

/-! ## Lines of offsets -/

section LinesOfOffsets

variable {feeds more : List Nat} {offset : Nat}

/-- Line feeds behind an offset do not count. -/
theorem lineAt_append_of_le (behind : ∀ f ∈ more, offset ≤ f) :
    lineAt (feeds ++ more) offset = lineAt feeds offset := by
  have none : more.countP (· < offset) = 0 := by
    rw [List.countP_eq_zero]
    intro f there
    have := behind f there
    simpa using this
  rw [lineAt, lineAt, List.countP_append, none, Nat.add_zero]

/-- Line feeds in front of an offset all count. -/
theorem countP_of_before (before : ∀ f ∈ feeds, f < offset) :
    feeds.countP (· < offset) = feeds.length :=
  List.countP_eq_length.2 fun f there => decide_eq_true (before f there)

/-- The line of a place behind `before`, if offsets leave out `n` bytes in front of it: line feeds
count if they stand `n` bytes in front of the place or more. -/
theorem lineAt_byteLength (n : Nat) (before after : List Char) :
    lineAt (lineFeeds n (before ++ after)) (byteLength before)
      = (1 + feedsFollowedBy n before) % UInt32.size := by
  have behind : ∀ f ∈ lineFeeds (n + byteLength before) after, byteLength before ≤ f := by
    intro f there
    have := (lineFeeds_bounds there).1
    omega
  rw [lineFeeds_append, lineAt_append_of_le behind, lineAt, feedsFollowedBy_eq_countP]

/-- In a text with few lines, words of 32 bits have room for all of them. -/
theorem lineAt_of_few (few : feeds.length + 1 < UInt32.size) (offset : Nat) :
    lineAt feeds offset = 1 + feeds.countP (· < offset) := by
  have := feeds.countP_le_length (p := (· < offset))
  exact Nat.mod_eq_of_lt (by omega)

/-- Then lines do not go back as offsets grow. -/
theorem monotone_lineAt (few : feeds.length + 1 < UInt32.size) : Monotone (lineAt feeds) := by
  intro a b le
  rw [lineAt_of_few few, lineAt_of_few few]
  refine Nat.add_le_add_left (List.countP_mono_left fun f _ before => ?_) 1
  simp only [decide_eq_true_eq] at before ⊢
  omega

/-- Behind `n` bytes without a line feed, the lines stay the same. -/
theorem lineAt_insert (before : ∀ f ∈ feeds, f < offset) (n : Nat) :
    lineAt (feeds ++ more.map (· + n)) (offset + n) = lineAt (feeds ++ more) offset := by
  have further : ∀ f ∈ feeds, f < offset + n := by
    intro f there
    have := before f there
    omega
  rw [lineAt, lineAt, List.countP_append, List.countP_append, countP_of_before before,
    countP_of_before further, List.countP_map]
  simp only [Function.comp_def, Nat.add_lt_add_iff_right]

end LinesOfOffsets

/-! ## Tokens at lines -/

/-- Two tokens that say the same, and begin and end at the same lines. -/
structure SameLines (lineOf lineOf' : Nat → Nat) (t t' : Token) : Prop where
  piece : t'.piece = t.piece
  start : lineOf' t'.start = lineOf t.start
  stop : lineOf' (t'.stop - 1) = lineOf (t.stop - 1)

theorem SameLines.symm {lineOf lineOf' : Nat → Nat} {t t' : Token}
    (same : SameLines lineOf lineOf' t t') : SameLines lineOf' lineOf t' t :=
  ⟨same.piece.symm, same.start.symm, same.stop.symm⟩

namespace Builder

variable {lineOf lineOf' : Nat → Nat} {b b' : Builder}

/-- Two tokens at the same lines are taken in by the same steps. -/
theorem Steps.congr {t t' : Token} (same : SameLines lineOf lineOf' t t')
    (h : Steps lineOf t b b') : Steps lineOf' t' b b' := by
  obtain ⟨piece, start, stop⟩ := same
  cases h with
  | remark is => exact .remark (piece.trans is)
  | aside is => exact .aside (is.imp piece.trans piece.trans)
  | text is meaning => exact .text (piece.trans is) meaning
  | characterData is => exact .characterData (piece.trans is)
  | opening is opens => exact .opening (piece.trans is) (start ▸ opens)
  | empty is opens => rw [← stop]; exact .empty (piece.trans is) (start ▸ opens)
  | closing is => rw [← stop]; exact .closing (piece.trans is)

/-- Tokens that say the same at the same lines are taken in alike. -/
theorem run_map_eq_ok_iff {tokens : List Token} {f : Token → Token}
    (same : ∀ t ∈ tokens, SameLines lineOf lineOf' t (f t)) :
    b.run lineOf' (tokens.map f) = .ok b' ↔ b.run lineOf tokens = .ok b' := by
  induction tokens generalizing b with
  | nil => rfl
  | cons t tokens ih =>
    obtain ⟨first, others⟩ := List.forall_mem_cons.1 same
    constructor
    · intro h
      obtain ⟨next, step, further⟩ := run_cons_eq_ok h
      rw [run_cons_of_step (step.congr first.symm)]
      exact (ih others).1 further
    · intro h
      obtain ⟨next, step, further⟩ := run_cons_eq_ok h
      rw [List.map_cons, run_cons_of_step (step.congr first)]
      exact (ih others).2 further

end Builder

end BeanWiring.Markup
