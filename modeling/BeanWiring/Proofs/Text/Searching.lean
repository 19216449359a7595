/-
# Searching in texts

What it means that a text begins with another one, that it contains one, and that it is cut at a
character.

Main statements: `stripStart?_eq_some_iff`, `mentions_iff`.
-/
import Mathlib.Data.List.Infix
import Mathlib.Data.List.TakeWhile
import BeanWiring.Text.Blank

namespace BeanWiring.Text

theorem stripStart?_eq_some_iff {start s rest : List Char} :
    stripStart? start s = some rest ↔ s = start ++ rest := by
  constructor
  · intro h
    induction start generalizing s with
    | nil => exact Option.some.inj h
    | cons a start ih =>
      cases s with
      | nil => cases h
      | cons b s =>
        rw [stripStart?] at h
        split at h
        · rename_i same
          rw [List.cons_append, ← ih h, same]
        · cases h
  · rintro rfl
    induction start with
    | nil => rfl
    | cons a start ih =>
      rw [List.cons_append, stripStart?, if_pos rfl]
      exact ih

theorem startsWith_iff {start s : List Char} : startsWith start s = true ↔ start <+: s := by
  unfold startsWith
  induction start generalizing s with
  | nil => simp [stripStart?]
  | cons a start ih =>
    cases s with
    | nil => simp [stripStart?]
    | cons b s =>
      rw [stripStart?, List.cons_prefix_cons]
      by_cases same : a = b
      · rw [if_pos same, ih]
        exact (and_iff_right same).symm
      · simp [same]

theorem mentions_iff {part s : List Char} : mentions part s = true ↔ part <:+: s := by
  induction s with
  | nil => rw [mentions, List.isEmpty_iff, List.infix_nil]
  | cons c s ih => rw [mentions, Bool.or_eq_true, startsWith_iff, ih, List.infix_cons_iff]

/-- What stands before and behind a character that `part` does not have mentions it on its own. -/
theorem infix_append_cons_iff {part s back : List Char} {c : Char} (nonempty : part ≠ [])
    (apart : c ∉ part) : part <:+: s ++ c :: back ↔ part <:+: s ∨ part <:+: back := by
  -- A beginning that reaches the character would have it.
  have stops : ∀ {s : List Char}, part <+: s ++ c :: back → part <+: s := by
    intro s starts
    have front : s ++ [c] <+: s ++ c :: back := ⟨back, by rw [List.append_assoc]; rfl⟩
    rcases List.prefix_or_prefix_of_prefix starts front with short | long
    · rcases List.prefix_concat_iff.1 short with rfl | within
      · exact absurd (List.mem_append_right s List.mem_cons_self) apart
      · exact within
    · exact absurd (long.subset (List.mem_append_right s List.mem_cons_self)) apart
  induction s with
  | nil =>
    rw [List.nil_append, List.infix_cons_iff, List.infix_nil]
    refine or_congr ⟨fun starts => ?_, fun none => absurd none nonempty⟩ Iff.rfl
    exact List.prefix_nil.1 (stops (s := []) starts)
  | cons d s ih =>
    rw [List.cons_append, List.infix_cons_iff, List.infix_cons_iff, or_assoc]
    exact or_congr ⟨stops (s := d :: s), fun starts => starts.trans (List.prefix_append _ _)⟩ ih

/-- A text mentions nothing more between a front that `part` does not begin in and a character that
it does not have, with nothing of it behind. -/
theorem mentions_around {part front s back : List Char} {c : Char}
    (before : ∀ d ∈ front, part.head? ≠ some d) (apart : c ∉ part)
    (behind : mentions part back = false) :
    mentions part (front ++ (s ++ c :: back)) = mentions part s := by
  have without : ¬ part <:+: back := by
    rw [← mentions_iff, behind]
    exact Bool.false_ne_true
  have nonempty : part ≠ [] := fun none => without (none ▸ List.nil_infix)
  rw [Bool.eq_iff_iff, mentions_iff, mentions_iff]
  induction front with
  | nil => rw [List.nil_append, infix_append_cons_iff nonempty apart, or_iff_left without]
  | cons d front ih =>
    rw [List.cons_append, List.infix_cons_iff, ← ih fun e listed =>
      before e (List.mem_cons_of_mem d listed)]
    refine or_iff_right fun starts => ?_
    obtain ⟨e, rest, rfl⟩ := List.exists_cons_of_ne_nil nonempty
    exact before d List.mem_cons_self (congrArg some (List.cons_prefix_cons.1 starts).1)

theorem notMem_of_cutAt? {c : Char} {s a b : List Char} (cut : cutAt? c s = some (a, b)) :
    c ∉ a := by
  induction s generalizing a with
  | nil => cases cut
  | cons d s ih =>
    rw [cutAt?] at cut
    split at cut
    · cases cut
      exact List.not_mem_nil
    · rename_i other
      obtain ⟨⟨a', b'⟩, cut', same⟩ := Option.map_eq_some_iff.1 cut
      cases same
      rw [List.mem_cons, not_or]
      exact ⟨Ne.symm other, ih cut'⟩

theorem cutAt?_eq_none_iff {c : Char} {s : List Char} : cutAt? c s = none ↔ c ∉ s := by
  induction s with
  | nil => simp [cutAt?]
  | cons d s ih =>
    rw [cutAt?, List.mem_cons, not_or, ← ih]
    by_cases same : d = c
    · simp [same]
    · simp [same, Ne.symm same]

/-- Up to a character that ends it, all of a text is taken. -/
theorem takeWhile_append_cons {p : Char → Bool} {s : List Char} (inside : ∀ c ∈ s, p c = true)
    {c : Char} (ends : p c = false) (rest : List Char) :
    (s ++ c :: rest).takeWhile p = s ∧ (s ++ c :: rest).dropWhile p = c :: rest := by
  rw [List.takeWhile_append_of_pos inside, List.dropWhile_append_of_pos inside,
    List.takeWhile_cons_of_neg (by simp [ends]), List.dropWhile_cons_of_neg (by simp [ends]),
    List.append_nil]
  exact ⟨rfl, rfl⟩

/-- What does not satisfy `p` all over has a first character that does not. -/
theorem exists_first_of_not_all {p : Char → Bool} {s : List Char} (some : ¬ s.all p = true) :
    ∃ front c back, s = front ++ c :: back ∧ (∀ d ∈ front, p d = true) ∧ p c = false := by
  induction s with
  | nil => exact absurd rfl some
  | cons d s ih =>
    cases first : p d with
    | false => exact ⟨[], d, s, rfl, nofun, first⟩
    | true =>
      rw [List.all_cons, first, Bool.true_and] at some
      obtain ⟨front, c, back, rfl, inside, ends⟩ := ih some
      exact ⟨d :: front, c, back, rfl, List.forall_mem_cons.2 ⟨first, inside⟩, ends⟩

end BeanWiring.Text
