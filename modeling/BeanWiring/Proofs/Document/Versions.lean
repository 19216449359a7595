/-
# Versions of documents

A store that is written to and removed from gives every version of a document a stamp of its own.
So a stamp tells what was read: where the stamp of a name is what it was, the same is read again, be
it a document or the reason why there is none.

Main statements:

* `Follows` : what writes and removals keep of the documents;
* `read_of_stamp?` : a stamp tells what was read.
-/
import BeanWiring.Document.Store

namespace BeanWiring.DocumentStore

variable {old new newer : DocumentStore} {name : String}

/-! ## Stamps that were given -/

/-- Every stamp was given by the clock. -/
def IsStamped (s : DocumentStore) : Prop :=
  ∀ name d, s.document? name = some d → d.stamp ≤ s.clock

/-- A document that is put is there, with the next stamp, and the others stay. -/
theorem document?_put (s : DocumentStore) (name content other : String) :
    (s.put name content).document? other
      = if name = other then some ⟨name, content, s.clock + 1⟩ else s.document? other :=
  Keyed.get?_put Document.name other _ s.documents

/-- What is there after a removal was there before. -/
theorem document?_of_remove {s : DocumentStore} {name other : String} {d : Document}
    (found : (s.remove name).document? other = some d) : s.document? other = some d := by
  rw [document?, remove, Keyed.get?_erase] at found
  by_cases same : other = name
  · rw [if_pos same] at found
    cases found
  · rwa [if_neg same] at found

/-- A store that another one became by writes and removals: what has no later stamp was there
before. -/
structure Follows (new old : DocumentStore) : Prop where
  clock : old.clock ≤ new.clock
  faults : new.faults = old.faults
  kept : ∀ name d, new.document? name = some d → d.stamp ≤ old.clock → old.document? name = some d

theorem Follows.refl (s : DocumentStore) : s.Follows s :=
  ⟨Nat.le_refl _, rfl, fun _ _ found _ => found⟩

theorem Follows.trans (h : newer.Follows new) (h' : new.Follows old) : newer.Follows old where
  clock := Nat.le_trans h'.clock h.clock
  faults := h.faults.trans h'.faults
  kept := fun name d found early =>
    h'.kept name d (h.kept name d found (Nat.le_trans early h'.clock)) early

/-- A put leads to a later store. -/
theorem follows_put (s : DocumentStore) (name content : String) :
    (s.put name content).Follows s where
  clock := Nat.le_succ _
  faults := rfl
  kept := by
    intro other d found early
    rw [document?_put] at found
    by_cases same : name = other
    · -- What was written has a later stamp.
      rw [if_pos same] at found
      cases found
      exact absurd early (Nat.not_succ_le_self _)
    · rwa [if_neg same] at found

/-- A removal leads to a later store. -/
theorem follows_remove (s : DocumentStore) (name : String) : (s.remove name).Follows s where
  clock := Nat.le_refl _
  faults := rfl
  kept := fun _ _ found _ => document?_of_remove found

/-- A put keeps a store stamped. -/
theorem IsStamped.put (h : old.IsStamped) (name content : String) :
    (old.put name content).IsStamped := by
  intro other d found
  rw [document?_put] at found
  by_cases same : name = other
  · rw [if_pos same] at found
    cases found
    exact Nat.le_refl _
  · rw [if_neg same] at found
    exact Nat.le_succ_of_le (h other d found)

/-- A removal keeps a store stamped. -/
theorem IsStamped.remove (h : old.IsStamped) (name : String) : (old.remove name).IsStamped :=
  fun other d found => h other d (document?_of_remove found)

/-! ## Reading again -/

/-- Where the stamp of a name is that of what was read, the same is read again. -/
theorem read_of_stamp? (follows : new.Follows old) (stamped : old.IsStamped)
    (same : new.stamp? name = (old.read name).toOption.map Document.stamp) :
    new.read name = old.read name := by
  unfold read at same ⊢
  rw [follows.faults]
  cases fault : old.faults.lookup name with
  | some _ => rfl
  | none =>
    rw [fault] at same
    cases before : old.document? name with
    | none =>
      rw [before] at same
      have gone : new.document? name = none := Option.map_eq_none_iff.1 same
      rw [gone]
    | some d =>
      rw [before] at same
      obtain ⟨d', now, stamp⟩ := Option.map_eq_some_iff.1 same
      -- The document that is there now has an early stamp, so it was there before.
      have early : d'.stamp ≤ old.clock := stamp ▸ stamped name d before
      have there := follows.kept name d' now early
      rw [before] at there
      cases there
      rw [now]

end BeanWiring.DocumentStore
