/-
# Stamps through a history

A history of writes and removals, from a store without documents on.  Each write takes the next
stamp off the clock, and the clock is never set back.  So a stamp that a document has lost, be it
overwritten or removed, does not come back, whatever is written under its name later on; and a stamp
that is still there stands for the same document.

A stamp is kept as a word of 64 bits, so this holds as long as the clock has not gone all the way
round.

Main statements:

* `moment_follows` : a later moment of a history follows an earlier one;
* `clock_moment_le` : the clock counts the writes;
* `stamps_tell_versions` : what the stamps at two moments of a history say.
-/
import BeanWiring.Proofs.Document.Versions

namespace BeanWiring.DocumentStore

/-! ## Histories -/

/-- A write or a removal. -/
inductive Edit where
  | put (name content : String)
  | remove (name : String)
deriving DecidableEq

/-- The name that is written or removed. -/
def Edit.name : Edit → String
  | put name _ => name
  | remove name => name

/-- The store after an edit. -/
def edit (s : DocumentStore) : Edit → DocumentStore
  | .put name content => s.put name content
  | .remove name => s.remove name

/-- The store after some edits, from left to right. -/
def edits (s : DocumentStore) (history : List Edit) : DocumentStore :=
  history.foldl edit s

/-- The store after the first `i` edits of a history. -/
def moment (history : List Edit) (i : Nat) : DocumentStore :=
  edits {} (history.take i)

/-- The number of writes in a history. -/
def writes (history : List Edit) : Nat :=
  history.countP fun e => e matches .put ..

/-! ## What an edit keeps -/

section Edits

variable {s : DocumentStore}

/-- An edit leads to a later store. -/
theorem follows_edit (s : DocumentStore) (e : Edit) : (s.edit e).Follows s := by
  cases e with
  | put name content => exact follows_put s name content
  | remove name => exact follows_remove s name

/-- An edit keeps a store stamped. -/
theorem IsStamped.edit (h : s.IsStamped) (e : Edit) : (s.edit e).IsStamped := by
  cases e with
  | put name content => exact h.put name content
  | remove name => exact h.remove name

/-- An edited document is gone, or it has a stamp that was not given before. -/
theorem clock_lt_of_edit (s : DocumentStore) (e : Edit) {d : Document}
    (found : (s.edit e).document? e.name = some d) : s.clock < d.stamp := by
  cases e with
  | put name content =>
    have now := document?_put s name content name
    rw [if_pos rfl] at now
    obtain rfl := Option.some.inj (now.symm.trans found)
    exact Nat.lt_succ_self s.clock
  | remove name =>
    have gone := stamp?_remove s name name
    rw [if_pos rfl, stamp?, Option.map_eq_none_iff] at gone
    cases gone.symm.trans found

/-- Edits in two goes are edits in one. -/
theorem edits_append (s : DocumentStore) (history later : List Edit) :
    s.edits (history ++ later) = (s.edits history).edits later :=
  List.foldl_append

/-- Edits lead to later stores. -/
theorem follows_edits (s : DocumentStore) (history : List Edit) :
    (s.edits history).Follows s := by
  induction history generalizing s with
  | nil => exact .refl s
  | cons e history ih => exact (ih (s.edit e)).trans (follows_edit s e)

/-- Edits keep a store stamped. -/
theorem IsStamped.edits (h : s.IsStamped) (history : List Edit) :
    (s.edits history).IsStamped := by
  induction history generalizing s with
  | nil => exact h
  | cons e history ih => exact ih (h.edit e)

/-- The clock counts the writes. -/
theorem clock_edits (s : DocumentStore) (history : List Edit) :
    (s.edits history).clock = s.clock + writes history := by
  induction history generalizing s with
  | nil => rfl
  | cons e history ih =>
    have rest : (s.edits (e :: history)).clock = (s.edit e).clock + writes history := ih (s.edit e)
    rw [rest, writes, writes, List.countP_cons]
    cases e with
    | put name content =>
      show s.clock + 1 + _ = s.clock + (_ + 1)
      omega
    | remove name => rfl

end Edits

/-! ## Moments -/

section Moments

variable (history : List Edit) {i j k : Nat}

/-- A later moment of a history follows an earlier one. -/
theorem moment_follows (le : i ≤ j) : (moment history j).Follows (moment history i) := by
  have split := List.take_append_drop i (history.take j)
  rw [List.take_take, Nat.min_eq_left le] at split
  rw [moment, ← split, edits_append]
  exact follows_edits _ _

/-- At every moment of a history the store is stamped. -/
theorem isStamped_moment (i : Nat) : (moment history i).IsStamped := by
  have start : IsStamped {} := fun _ _ found => nomatch found
  exact start.edits _

/-- The next moment is the one after the next edit. -/
theorem moment_succ {e : Edit} (next : history[k]? = some e) :
    moment history (k + 1) = (moment history k).edit e := by
  rw [moment, List.take_add_one, next, edits_append]
  rfl

/-- At no moment has the clock run further than there were inserts. -/
theorem clock_moment_le (i : Nat) : (moment history i).clock ≤ writes history := by
  have some : writes (history.take i) ≤ writes history := (List.take_sublist i history).countP_le
  have clock := clock_edits {} (history.take i)
  rw [Nat.zero_add] at clock
  rwa [moment, clock]

end Moments

/-! ## Stamps as words -/

/-- The stamp of a document, kept as a word of 64 bits. -/
def stampWord? (s : DocumentStore) (name : String) : Option UInt64 :=
  (s.stamp? name).map UInt64.ofNat

/-- The word of a document's stamp is its stamp, cut to the size of a word. -/
theorem stampWord?_eq_some_iff {s : DocumentStore} {name : String} {w : UInt64} :
    s.stampWord? name = some w ↔
      ∃ d, s.document? name = some d ∧ UInt64.ofNat d.stamp = w := by
  simp [stampWord?, stamp?]

/-- Exactly the documents that are missing have no word. -/
theorem stampWord?_eq_none_iff {s : DocumentStore} {name : String} :
    s.stampWord? name = none ↔ s.document? name = none := by
  simp [stampWord?, stamp?]

variable {history : List Edit} {name : String} {i j k : Nat}

/-- Before the clock has gone all the way round, words tell stamps apart. -/
theorem stamp_eq_of_word (few : writes history < UInt64.size) {d d' : Document}
    (found : (moment history i).document? name = some d)
    (found' : (moment history j).document? name = some d')
    (same : UInt64.ofNat d.stamp = UInt64.ofNat d'.stamp) : d.stamp = d'.stamp := by
  have small : ∀ {k d}, (moment history k).document? name = some d → d.stamp < UInt64.size := by
    intro k d found
    have early := isStamped_moment history k name d found
    have bound := clock_moment_le history k
    exact Nat.lt_of_le_of_lt (Nat.le_trans early bound) few
  have words := congrArg UInt64.toNat same
  rwa [UInt64.toNat_ofNat_of_lt' (small found), UInt64.toNat_ofNat_of_lt' (small found')] at words

/-- A document that has the same stamp at two moments is the same. -/
theorem document?_eq_of_stamp {d d' : Document} (le : i ≤ j)
    (found : (moment history i).document? name = some d)
    (found' : (moment history j).document? name = some d') (same : d.stamp = d'.stamp) :
    (moment history i).document? name = (moment history j).document? name := by
  have early := isStamped_moment history i name d found
  rw [same] at early
  rw [found', (moment_follows history le).kept name d' found' early]

/-- **Stamps.**  At any two moments of a history in which the clock has not gone all the way round,
a name with the same stamp has the same document, or it has none at both moments.  A stamp that was
there before a document was written or removed is not there any more at any moment after it. -/
theorem stamps_tell_versions (few : writes history < UInt64.size) (name : String) (i j : Nat) :
    ((moment history i).stampWord? name = (moment history j).stampWord? name →
      (moment history i).document? name = (moment history j).document? name) ∧
    ∀ k e, history[k]? = some e → e.name = name → i ≤ k → k < j →
      ∀ w, (moment history i).stampWord? name = some w →
        (moment history j).stampWord? name ≠ some w := by
  constructor
  · intro same
    cases word : (moment history i).stampWord? name with
    | none =>
      rw [stampWord?_eq_none_iff.1 word, stampWord?_eq_none_iff.1 (same ▸ word)]
    | some w =>
      obtain ⟨d, found, given⟩ := stampWord?_eq_some_iff.1 word
      obtain ⟨d', found', given'⟩ := stampWord?_eq_some_iff.1 (same ▸ word)
      have stamps := stamp_eq_of_word few found found' (given.trans given'.symm)
      rcases Nat.le_total i j with le | le
      · exact document?_eq_of_stamp le found found' stamps
      · exact (document?_eq_of_stamp le found' found stamps.symm).symm
  · rintro k e edited rfl before after w word word'
    obtain ⟨d, found, given⟩ := stampWord?_eq_some_iff.1 word
    obtain ⟨d', found', given'⟩ := stampWord?_eq_some_iff.1 word'
    have stamps := stamp_eq_of_word few found found' (given.trans given'.symm)
    -- The stamp was given before the edit, so right after it the document would be there with it.
    have early := isStamped_moment history i e.name d found
    have ticked := (moment_follows history before).clock
    have further := (moment_follows history (Nat.le_succ k)).clock
    have there := (moment_follows history after).kept e.name d' found' (by omega)
    rw [moment_succ history edited] at there
    have late := clock_lt_of_edit _ e there
    omega

/-- Written, removed and written again with the same content, a document has another stamp. -/
theorem stamps_of_rewritten :
    let history : List Edit := [.put "a.xml" "<beans/>", .remove "a.xml", .put "a.xml" "<beans/>"]
    (moment history 1).stampWord? "a.xml" = some 1 ∧
    (moment history 2).stampWord? "a.xml" = none ∧
    (moment history 3).stampWord? "a.xml" ≠ some 1 := by
  intro history
  have told := stamps_tell_versions (show writes history < UInt64.size by decide) "a.xml" 1 3
  exact ⟨rfl, rfl, told.2 1 _ rfl rfl (by decide) (by decide) _ rfl⟩

end BeanWiring.DocumentStore
