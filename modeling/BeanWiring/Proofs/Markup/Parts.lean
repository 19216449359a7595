/-
# Texts in two parts

A text of a document loses the blanks around it.  When it is cut in two, each part loses the blanks
around it, so blanks at the place of the cut are lost, unless one part is nothing but blanks; and a
reference that is cut is no reference any more.

Main statements:

* `trimMarkup_append` : the blanks that are lost;
* `means_trimMarkup_append_iff` : what a text stands for, by its parts.
-/
import BeanWiring.Proofs.Markup.References
import BeanWiring.Proofs.Markup.Scanning

namespace BeanWiring.Markup

open Text

/-! ## Dropping at the end -/

section DroppingAtEnd

variable {p : Char → Bool} {s t : List Char}

/-- What is dropped anyway may stand at the end. -/
theorem dropRightWhile_append_of_all (all : t.all p = true) :
    dropRightWhile p (s ++ t) = dropRightWhile p s := by
  rw [dropRightWhile, List.reverse_append, List.dropWhile_append_of_pos, dropRightWhile]
  exact fun c there => List.all_eq_true.1 all c (List.mem_reverse.1 there)

/-- What is dropped at the end does not reach beyond something that stays. -/
theorem takeWhile_reverse_append_of_not_all (some : ¬ t.all p = true) :
    (s ++ t).reverse.takeWhile p = t.reverse.takeWhile p := by
  rw [← List.all_reverse] at some
  obtain ⟨front, c, back, split, inside, ends⟩ := exists_first_of_not_all some
  rw [List.reverse_append, split, List.append_assoc, List.cons_append,
    (takeWhile_append_cons inside ends _).1, (takeWhile_append_cons inside ends _).1]

/-- A text is what is left of it and what was dropped. -/
theorem dropRightWhile_append_takeWhile (p : Char → Bool) (s : List Char) :
    dropRightWhile p s ++ (s.reverse.takeWhile p).reverse = s := by
  rw [dropRightWhile, ← List.reverse_append, List.takeWhile_append_dropWhile, List.reverse_reverse]

/-- Where something stays in the last part, the text in front of that stays as well. -/
theorem dropRightWhile_append_of_not_all (some : ¬ t.all p = true) :
    dropRightWhile p (s ++ t) = s ++ dropRightWhile p t := by
  have whole := dropRightWhile_append_takeWhile p (s ++ t)
  rw [takeWhile_reverse_append_of_not_all some] at whole
  refine List.append_cancel_right (whole.trans ?_)
  rw [List.append_assoc, dropRightWhile_append_takeWhile]

/-- Something that stays is still there once the front was dropped. -/
theorem not_all_dropWhile (some : ¬ s.all p = true) : ¬ (s.dropWhile p).all p = true := by
  obtain ⟨front, c, back, rfl, inside, ends⟩ := exists_first_of_not_all some
  rw [(takeWhile_append_cons inside ends back).2, List.all_cons, ends]
  exact Bool.false_ne_true

/-- Where something stays, what follows stays as well. -/
theorem dropWhile_append_of_not_all (some : ¬ s.all p = true) :
    (s ++ t).dropWhile p = s.dropWhile p ++ t := by
  obtain ⟨front, c, back, rfl, inside, ends⟩ := exists_first_of_not_all some
  rw [List.append_assoc, List.cons_append, (takeWhile_append_cons inside ends _).2,
    (takeWhile_append_cons inside ends _).2, List.cons_append]

end DroppingAtEnd

/-! ## Blanks at a cut -/

/-- The blanks on both sides of a place in a text, if it goes on on both sides. -/
def blanksBetween (left right : List Char) : List Char :=
  if left.all isMarkupBlank = true ∨ right.all isMarkupBlank = true then []
  else (left.reverse.takeWhile isMarkupBlank).reverse ++ right.takeWhile isMarkupBlank

section Cutting

variable {left right s t u : List Char}

/-- Blanks alone are trimmed to nothing. -/
theorem trimMarkup_of_all (blank : s.all isMarkupBlank = true) : trimMarkup s = [] := by
  rw [trimMarkup, List.dropWhile_eq_nil_iff.2 (List.all_eq_true.1 blank)]
  rfl

/-- Without the blanks around it, a text is its parts without those around them, and the blanks
between them. -/
theorem trimMarkup_append (left right : List Char) :
    trimMarkup (left ++ right)
      = trimMarkup left ++ (blanksBetween left right ++ trimMarkup right) := by
  unfold blanksBetween
  by_cases blank : left.all isMarkupBlank = true
  · rw [if_pos (.inl blank), trimMarkup_of_all blank, List.nil_append, List.nil_append, trimMarkup,
      List.dropWhile_append_of_pos (List.all_eq_true.1 blank), trimMarkup]
  by_cases blank' : right.all isMarkupBlank = true
  · rw [if_pos (.inr blank'), trimMarkup_of_all blank', List.nil_append, List.append_nil,
      trimMarkup, dropWhile_append_of_not_all blank, dropRightWhile_append_of_all blank',
      trimMarkup]
  -- Behind the first character that stays, all of the left part stays; so does the right part up to
  -- the last one.
  have endOfLeft : left.dropWhile isMarkupBlank
      = trimMarkup left ++ (left.reverse.takeWhile isMarkupBlank).reverse := by
    have whole := dropRightWhile_append_takeWhile isMarkupBlank (left.dropWhile isMarkupBlank)
    rw [← takeWhile_reverse_append_of_not_all (not_all_dropWhile blank),
      List.takeWhile_append_dropWhile] at whole
    exact whole.symm
  have startOfRight : dropRightWhile isMarkupBlank right
      = right.takeWhile isMarkupBlank ++ trimMarkup right := by
    rw [trimMarkup, ← dropRightWhile_append_of_not_all (not_all_dropWhile blank'),
      List.takeWhile_append_dropWhile]
  rw [if_neg (not_or.2 ⟨blank, blank'⟩), trimMarkup, dropWhile_append_of_not_all blank,
    dropRightWhile_append_of_not_all blank', endOfLeft, startOfRight]
  simp only [List.append_assoc]

/-- A text is its trimmed form with blanks on both sides. -/
theorem exists_eq_trimMarkup (s : List Char) :
    ∃ lead trail, s = lead ++ (trimMarkup s ++ trail) ∧
      (∀ c ∈ lead, isMarkupBlank c = true) ∧ ∀ c ∈ trail, isMarkupBlank c = true := by
  refine ⟨s.takeWhile isMarkupBlank,
    ((s.dropWhile isMarkupBlank).reverse.takeWhile isMarkupBlank).reverse, ?_, ?_, ?_⟩
  · rw [trimMarkup, dropRightWhile_append_takeWhile, List.takeWhile_append_dropWhile]
  · exact fun c there => List.mem_takeWhile_imp there
  · exact fun c there => List.mem_takeWhile_imp (List.mem_reverse.1 there)

/-- There is nothing but blanks between two parts. -/
theorem blanksBetween_blank {c : Char} (there : c ∈ blanksBetween left right) :
    isMarkupBlank c = true := by
  unfold blanksBetween at there
  split at there
  · cases there
  · rcases List.mem_append.1 there with there | there
    · exact List.mem_takeWhile_imp (List.mem_reverse.1 there)
    · exact List.mem_takeWhile_imp there

/-! ## What the parts stand for -/

/-- Blanks stand for themselves. -/
theorem Means.of_blanks (blanks : ∀ c ∈ s, isMarkupBlank c = true) : Means s s := by
  induction s with
  | nil => exact .nil
  | cons c s ih =>
    obtain ⟨first, others⟩ := List.forall_mem_cons.1 blanks
    refine .plain ?_ (ih others)
    rintro rfl
    cases first

/-- What a text stands for stays when something without a semicolon is cut off from its end. -/
theorem Means.exists_of_append (h : Means (s ++ t) u) (noSemicolon : ';' ∉ t) : ∃ v, Means s v := by
  generalize split : s ++ t = whole at h
  induction h generalizing s with
  | nil =>
    obtain ⟨rfl, -⟩ := List.append_eq_nil_iff.1 split
    exact ⟨[], .nil⟩
  | plain other _ ih =>
    cases s with
    | nil => exact ⟨[], .nil⟩
    | cons c s =>
      obtain ⟨rfl, rest⟩ := List.cons.inj split
      obtain ⟨v, front⟩ := ih rest
      exact ⟨_, .plain other front⟩
  | @reference body _ _ _ isBody stands _ ih =>
    cases s with
    | nil => exact ⟨[], .nil⟩
    | cons c s =>
      obtain ⟨rfl, rest⟩ := List.cons.inj split
      -- The semicolon of the reference is not in what is cut off.
      rcases List.append_eq_append_iff.1 rest with ⟨more, rfl, cut⟩ | ⟨more, rfl, cut⟩
      · rw [cut] at noSemicolon
        exact absurd (List.mem_append_right more List.mem_cons_self) noSemicolon
      · cases more with
        | nil =>
          rw [List.nil_append] at cut
          rw [← cut] at noSemicolon
          exact absurd List.mem_cons_self noSemicolon
        | cons d more =>
          obtain ⟨rfl, behind⟩ := List.cons.inj cut
          obtain ⟨v, front⟩ := ih behind.symm
          exact ⟨_, .reference isBody stands front⟩

/-- A text and its trimmed form are both well formed or both not. -/
theorem exists_means_trimMarkup_iff : (∃ t, Means (trimMarkup s) t) ↔ ∃ t, Means s t := by
  obtain ⟨lead, trail, split, blanks, blanks'⟩ := exists_eq_trimMarkup s
  constructor
  · rintro ⟨t, h⟩
    rw [split]
    exact ⟨_, (Means.of_blanks blanks).append (h.append (.of_blanks blanks'))⟩
  · rintro ⟨t, h⟩
    rw [split] at h
    obtain ⟨_, later, -⟩ := (Means.of_blanks blanks).of_append h
    exact later.exists_of_append fun there => Bool.noConfusion (blanks' _ there)

/-- What a text stands for is what its parts stand for, with the blanks between them. -/
theorem means_trimMarkup_append_iff (first : Means (trimMarkup left) s) :
    Means (trimMarkup (left ++ right)) u ↔
      ∃ t, Means (trimMarkup right) t ∧ u = s ++ (blanksBetween left right ++ t) := by
  have between : Means (blanksBetween left right) (blanksBetween left right) :=
    .of_blanks fun _ => blanksBetween_blank
  rw [trimMarkup_append]
  constructor
  · intro h
    obtain ⟨_, later, rfl⟩ := first.of_append h
    obtain ⟨t, last, rfl⟩ := between.of_append later
    exact ⟨t, last, rfl⟩
  · rintro ⟨t, last, rfl⟩
    exact first.append (between.append last)

end Cutting

end BeanWiring.Markup
