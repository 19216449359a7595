/-
# Character references

What a text with character references stands for, piece by piece, and how a text is written with
references so that it stands for itself again.  Where a text is unescaped from, and how long it is,
matters to the faults that are found only.

Main statements:

* `unescape_eq_ok_iff` : unescaping finds what a text stands for;
* `unescape_escape` : an escaped text is unescaped to itself.
-/
import Mathlib.Data.List.Basic
import BeanWiring.Keyed
import BeanWiring.Markup.Escape

namespace BeanWiring.Markup

open Text

/-! ## What a text stands for -/

/-- The text between `&` and `;` stands for a character, wherever it is read. -/
def StandsFor (body : List Char) (d : Char) : Prop :=
  ∀ start stop, entity start stop body = .ok d

/-- A text that can stand between `&` and `;`. -/
def IsBody (body : List Char) : Prop :=
  ∀ c ∈ body, c ≠ '&' ∧ c ≠ ';'

instance (body : List Char) : Decidable (IsBody body) := List.decidableBAll _ body

/-- What a text stands for: other characters than `&` for themselves, and references for the
characters that they name. -/
inductive Means : List Char → List Char → Prop
  | nil : Means [] []
  | plain {c : Char} {s t : List Char} (other : c ≠ '&') (rest : Means s t) :
      Means (c :: s) (c :: t)
  | reference {body s t : List Char} {d : Char} (isBody : IsBody body)
      (stands : StandsFor body d) (rest : Means s t) :
      Means ('&' :: (body ++ ';' :: s)) (d :: t)

/-- A body that is taken for a character stands for it. -/
theorem standsFor_of_entity {start stop : Nat} {body : List Char} {d : Char}
    (h : entity start stop body = .ok d) : StandsFor body d := by
  intro start' stop'
  unfold entity at h ⊢
  split at h
  · exact h
  · split at h
    · exact h
    · cases h

/-- What the rest of a text stands for, when the given part of a reference has been read. -/
def MeansAfter : (pending : Option (List Char)) → List Char → List Char → Prop
  | none, s, t => Means s t
  | some body, s, t => ∃ more d s' t', s = more ++ ';' :: s' ∧ t = d :: t' ∧ IsBody more ∧
      StandsFor (body ++ more) d ∧ Means s' t'

/-- What is read of a reference goes on with the next character. -/
theorem meansAfter_cons {body s t : List Char} {c : Char} (and : c ≠ '&') (semicolon : c ≠ ';') :
    MeansAfter (some body) (c :: s) t ↔ MeansAfter (some (body ++ [c])) s t := by
  constructor
  · rintro ⟨more, d, s', t', split, rfl, isBody, stands, rest⟩
    cases more with
    | nil => exact absurd (List.cons.inj split).1 semicolon
    | cons e more =>
      obtain ⟨rfl, rfl⟩ := List.cons.inj split
      refine ⟨more, d, s', t', rfl, rfl, (List.forall_mem_cons.1 isBody).2, ?_, rest⟩
      rwa [List.append_assoc]
  · rintro ⟨more, d, s', t', rfl, rfl, isBody, stands, rest⟩
    rw [List.append_assoc] at stands
    exact ⟨c :: more, d, s', t', rfl, rfl, List.forall_mem_cons.2 ⟨⟨and, semicolon⟩, isBody⟩,
      stands, rest⟩

theorem map_eq_ok_iff {E A B : Type} {f : A → B} {x : Except E A} {b : B} :
    x.map f = .ok b ↔ ∃ a, x = .ok a ∧ f a = b := by
  cases x <;> simp [Except.map]

/-- The text behind a reference that was begun is unescaped to what it means there. -/
theorem unescapeFrom_eq_ok_iff {length offset : Nat} {pending : Option (Nat × List Char)}
    {s t : List Char} :
    unescapeFrom length pending offset s = .ok t ↔
      MeansAfter (pending.map Prod.snd) s t := by
  induction s generalizing pending offset t with
  | nil =>
    cases pending with
    | none =>
      constructor
      · rintro ⟨⟩
        exact Means.nil
      · rintro ⟨⟩
        rfl
    | some body =>
      refine ⟨fun h => (by cases h), ?_⟩
      rintro ⟨more, _, _, _, split, -⟩
      cases more <;> cases split
  | cons c s ih =>
    cases pending with
    | none =>
      rw [unescapeFrom]
      by_cases and : c = '&'
      · simp only [and, if_true]
        rw [ih]
        constructor
        · rintro ⟨more, d, s', t', rfl, rfl, isBody, stands, rest⟩
          exact Means.reference isBody stands rest
        · intro means
          cases means with
          | plain other _ => exact absurd rfl other
          | reference isBody stands rest => exact ⟨_, _, _, _, rfl, rfl, isBody, stands, rest⟩
      · simp only [and, if_false]
        rw [map_eq_ok_iff]
        constructor
        · rintro ⟨t', later, rfl⟩
          exact Means.plain and (ih.1 later)
        · intro means
          cases means with
          | plain _ rest => exact ⟨_, ih.2 rest, rfl⟩
          | reference => exact absurd rfl and
    | some found =>
      obtain ⟨start, body⟩ := found
      rw [unescapeFrom]
      by_cases and : c = '&'
      · simp only [and, if_true]
        refine ⟨fun h => (by cases h), ?_⟩
        rintro ⟨more, _, _, _, split, -, isBody, -⟩
        cases more with
        | nil => cases split
        | cons e more =>
          exact absurd (List.cons.inj split).1.symm (List.forall_mem_cons.1 isBody).1.1
      · by_cases semicolon : c = ';'
        · subst semicolon
          simp only [and, if_false, if_true]
          constructor
          · intro h
            cases named : entity (start + 1) offset body with
            | error fault => rw [named] at h; cases h
            | ok d =>
              rw [named] at h
              obtain ⟨t', later, rfl⟩ := map_eq_ok_iff.1 h
              refine ⟨[], d, s, t', rfl, rfl, List.forall_mem_nil _, ?_, ih.1 later⟩
              rw [List.append_nil]
              exact standsFor_of_entity named
          · rintro ⟨more, d, s', t', split, rfl, isBody, stands, rest⟩
            cases more with
            | nil =>
              rw [List.append_nil] at stands
              obtain ⟨-, rfl⟩ := List.cons.inj split
              rw [stands (start + 1) offset]
              exact map_eq_ok_iff.2 ⟨t', ih.2 rest, rfl⟩
            | cons e more =>
              exact absurd (List.cons.inj split).1.symm (List.forall_mem_cons.1 isBody).1.2
        · simp only [and, semicolon, if_false]
          rw [ih]
          exact (meansAfter_cons and semicolon).symm

/-- **References.**  Unescaping finds what a text stands for. -/
theorem unescape_eq_ok_iff {s t : List Char} : unescape s = .ok t ↔ Means s t :=
  unescapeFrom_eq_ok_iff

namespace Means

/-- A text stands for one thing only. -/
theorem unique {s t t' : List Char} (h : Means s t) (h' : Means s t') : t = t' :=
  Except.ok.inj ((unescape_eq_ok_iff.2 h).symm.trans (unescape_eq_ok_iff.2 h'))

/-- Two texts in a row mean what they mean, in a row. -/
theorem append {s s' t t' : List Char} (h : Means s t) (h' : Means s' t') :
    Means (s ++ s') (t ++ t') := by
  induction h with
  | nil => exact h'
  | plain other _ ih => exact .plain other ih
  | reference isBody stands _ ih =>
    rw [List.cons_append, List.append_assoc]
    exact .reference isBody stands ih

/-- A character that begins no reference means itself. -/
theorem of_plain {c : Char} {s u : List Char} (other : c ≠ '&') (h : Means (c :: s) u) :
    ∃ t, Means s t ∧ u = c :: t := by
  cases h with
  | plain _ rest => exact ⟨_, rest, rfl⟩
  | reference => exact absurd rfl other

/-- A reference means the character that its body stands for. -/
theorem of_reference {body s u : List Char} (isBody : IsBody body)
    (h : Means ('&' :: (body ++ ';' :: s)) u) :
    ∃ d t, StandsFor body d ∧ Means s t ∧ u = d :: t := by
  generalize split : body ++ ';' :: s = rest at h
  cases h with
  | plain other _ => exact absurd rfl other
  | reference isBody' stands rest =>
    -- Both bodies end at the first semicolon.
    have cut := cutAt?_append (b := s) fun there => (isBody _ there).2 rfl
    rw [split, cutAt?_append fun there => (isBody' _ there).2 rfl] at cut
    cases cut
    exact ⟨_, _, stands, rest, rfl⟩

/-- What follows a text that stands for something stands for something by itself. -/
theorem of_append {s s' t u : List Char} (first : Means s t) (both : Means (s ++ s') u) :
    ∃ t', Means s' t' ∧ u = t ++ t' := by
  induction first generalizing u with
  | nil => exact ⟨u, both, rfl⟩
  | plain other _ ih =>
    obtain ⟨u', rest, rfl⟩ := of_plain other both
    obtain ⟨t', last, rfl⟩ := ih rest
    exact ⟨t', last, rfl⟩
  | @reference body s t d isBody stands _ ih =>
    rw [List.cons_append, List.append_assoc] at both
    obtain ⟨d', u', stands', rest, rfl⟩ := of_reference isBody both
    obtain ⟨t', last, rfl⟩ := ih rest
    cases (stands 0 0).symm.trans (stands' 0 0)
    exact ⟨t', last, rfl⟩

end Means

/-! ## Writing texts -/

/-- The names of the characters that markup could be made of. -/
def characterNames : List (Char × List Char) :=
  [('&', "amp".toList), ('<', "lt".toList), ('>', "gt".toList), ('"', "quot".toList),
    ('\'', "apos".toList)]

/-- A character as it is written in a text: by its name, or else as it is. -/
def escapeChar (c : Char) : List Char :=
  match characterNames.lookup c with
  | some name => '&' :: (name ++ [';'])
  | none => [c]

/-- A text written with references. -/
def escape (s : List Char) : List Char := s.flatMap escapeChar

/-- The characters with names of their own are referred to by these names. -/
theorem entity_of_mem_characterNames {c : Char} {name : List Char}
    (h : (c, name) ∈ characterNames) :
    (IsBody name ∧ '"' ∉ name) ∧ entity 0 0 name = .ok c := by
  have all : ∀ p ∈ characterNames, (IsBody p.2 ∧ '"' ∉ p.2) ∧ entity 0 0 p.2 = .ok p.1 := by
    decide
  exact all _ h

/-- An escaped character means the character. -/
theorem means_escapeChar (c : Char) : Means (escapeChar c) [c] := by
  unfold escapeChar
  cases named : characterNames.lookup c with
  | some name =>
    obtain ⟨⟨isBody, -⟩, found⟩ := entity_of_mem_characterNames (Keyed.mem_of_lookup named)
    exact .reference isBody (standsFor_of_entity found) .nil
  | none =>
    refine .plain ?_ .nil
    rintro rfl
    cases named

/-- An escaped text means the text. -/
theorem means_escape (s : List Char) : Means (escape s) s := by
  induction s with
  | nil => exact .nil
  | cons c s ih => exact (means_escapeChar c).append ih

/-- An escaped text is unescaped to itself. -/
theorem unescape_escape (s : List Char) : unescape (escape s) = .ok s :=
  unescape_eq_ok_iff.2 (means_escape s)

/-- No quotation mark is left in an escaped text. -/
theorem quote_notMem_escape (s : List Char) : '"' ∉ escape s := by
  intro there
  obtain ⟨c, -, there⟩ := List.mem_flatMap.1 there
  unfold escapeChar at there
  cases named : characterNames.lookup c with
  | some name =>
    obtain ⟨⟨-, unquoted⟩, -⟩ := entity_of_mem_characterNames (Keyed.mem_of_lookup named)
    simp [named, unquoted] at there
  | none =>
    rw [named, List.mem_singleton] at there
    rw [← there] at named
    cases named

end BeanWiring.Markup
