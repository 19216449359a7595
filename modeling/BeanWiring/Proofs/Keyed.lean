/-
# Writing many entries

What a table holds after a whole list of writes.  A key stands where it was first
written, and the entry last written under it answers; so the keys of the table are the
distinct keys of all entries, and a look-up asks the later entries before the earlier.

Main statements:

* `distinct_append` : the distinct entries of two lists one after the other;
* `keys_putAll` : the keys after many writes;
* `putAll_putAll` : writes one after the other are the writes of one table;
* `foldl_addUnlessCovered_foldl` : the same for entries that are appended where no entry covers
  them;
* `countP_foldl_addUnlessCovered` : how often entries alike stand in a list after that.
-/
import BeanWiring.Keyed

namespace BeanWiring.Keyed

/-! ## Distinct entries -/

section Distinct

variable {α : Type} [DecidableEq α]

/-- A list without repetitions is left as it is. -/
theorem distinct_of_nodup {xs : List α} (h : xs.Nodup) : distinct xs = xs := by
  induction xs with
  | nil => rfl
  | cons x xs ih =>
    rw [List.nodup_cons] at h
    rw [distinct, ih h.2, List.filter_eq_self.2]
    intro y hy
    have : y ≠ x := fun e => h.1 (e ▸ hy)
    simpa using this

/-- The distinct entries of two lists: those of the first, then what the second adds. -/
theorem distinct_append (xs ys : List α) :
    distinct (xs ++ ys) = distinct xs ++ (distinct ys).filter (· ∉ xs) := by
  induction xs with
  | nil =>
    rw [List.filter_eq_self.2 (by simp)]
    rfl
  | cons x xs ih =>
    rw [List.cons_append, distinct, distinct, ih, List.filter_append, List.filter_filter,
      List.cons_append]
    congr 2
    apply List.filter_congr
    intro y _
    by_cases hy : y = x <;> simp [hy]

/-- It does not matter whether entries are left out before or after. -/
theorem distinct_filter (left : α → Bool) (xs : List α) :
    distinct (xs.filter left) = (distinct xs).filter left := by
  induction xs with
  | nil => rfl
  | cons x xs ih =>
    by_cases h : left x = true
    · rw [List.filter_cons_of_pos h, distinct, distinct, ih, List.filter_cons_of_pos h,
        List.filter_filter, List.filter_filter]
      simp only [Bool.and_comm]
    · rw [List.filter_cons_of_neg h, distinct, ih, List.filter_cons_of_neg h, List.filter_filter]
      -- What is left out at the start is left out anyway.
      refine List.filter_congr fun y _ => ?_
      by_cases same : y = x
      · simp [same, h]
      · simp [same]

/-- One more entry is distinct if it is new. -/
theorem distinct_concat (xs : List α) (x : α) :
    distinct (xs ++ [x]) = if x ∈ distinct xs then distinct xs else distinct xs ++ [x] := by
  rw [distinct_append]
  by_cases there : x ∈ xs
  · simp [distinct, mem_distinct, there]
  · simp [distinct, mem_distinct, there]

/-- An entry that is added at the end if it is new is no repetition. -/
theorem nodup_extend {xs : List α} (x : α) (once : xs.Nodup) :
    (if x ∈ xs then xs else xs ++ [x]).Nodup := by
  by_cases there : x ∈ xs
  · rw [if_pos there]
    exact once
  · rw [if_neg there]
    refine List.nodup_append.2 ⟨once, by simp, ?_⟩
    rintro y hy z hz rfl
    exact there (List.mem_singleton.1 hz ▸ hy)

/-- Repetitions in the first of two lists do not matter. -/
theorem distinct_distinct_append (xs ys : List α) :
    distinct (distinct xs ++ ys) = distinct (xs ++ ys) := by
  rw [distinct_append, distinct_append, distinct_of_nodup (nodup_distinct xs)]
  simp only [mem_distinct]

end Distinct

/-! ## Many writes -/

section Tables

variable {κ α : Type} [DecidableEq κ]

/-- Writes entries one after the other. -/
def putAll (key : α → κ) (ys xs : List α) : List α :=
  ys.foldl (fun xs y => put key y xs) xs

theorem get?_eq_none_of_not_mem {key : α → κ} {k : κ} {xs : List α} (h : k ∉ xs.map key) :
    get? key k xs = none := by
  rw [get?, List.find?_eq_none]
  intro x hx
  have : key x ≠ k := fun e => h (e ▸ List.mem_map_of_mem hx)
  simpa using this

/-- Where no key comes twice, a look-up finds every entry. -/
theorem get?_key_of_mem {key : α → κ} {x : α} {xs : List α} (once : (xs.map key).Nodup)
    (listed : x ∈ xs) : get? key (key x) xs = some x := by
  induction xs with
  | nil => cases listed
  | cons y ys ih =>
    rw [List.map_cons, List.nodup_cons] at once
    rcases List.mem_cons.1 listed with rfl | later
    · simp [get?]
    · have other : key y ≠ key x := fun same => once.1 (same ▸ List.mem_map_of_mem later)
      rw [← ih once.2 later]
      simp [get?, other]

/-- An entry of a new key is written at the end. -/
theorem put_of_get?_none {key : α → κ} {x : α} {xs : List α} (new : get? key (key x) xs = none) :
    put key x xs = xs ++ [x] := by
  induction xs with
  | nil => rfl
  | cons y ys ih =>
    rw [get?, List.find?_cons] at new
    by_cases same : key y = key x
    · simp [same] at new
    · rw [put, if_neg same, ih (by simpa [same, get?] using new)]
      rfl

/-- An entry of a table was written last or stood there before. -/
theorem eq_or_mem_of_mem_put {key : α → κ} {x y : α} {xs : List α} (h : y ∈ put key x xs) :
    y = x ∨ y ∈ xs := by
  induction xs with
  | nil => exact Or.inl (List.mem_singleton.1 h)
  | cons z zs ih =>
    unfold put at h
    split at h
    · rcases List.mem_cons.1 h with rfl | h
      · exact Or.inl rfl
      · exact Or.inr (List.mem_cons_of_mem _ h)
    · rcases List.mem_cons.1 h with rfl | h
      · exact Or.inr List.mem_cons_self
      · exact (ih h).imp_right (List.mem_cons_of_mem _)

omit [DecidableEq κ] in
/-- Where each write adds nothing but its own entry, many writes add nothing but theirs. -/
theorem mem_or_mem_of_mem_foldl {write : List α → α → List α}
    (step : ∀ xs x y, y ∈ write xs x → y = x ∨ y ∈ xs) {ys xs : List α} {y : α}
    (h : y ∈ ys.foldl write xs) : y ∈ ys ∨ y ∈ xs := by
  induction ys generalizing xs with
  | nil => exact Or.inr h
  | cons x ys ih =>
    rcases ih h with later | earlier
    · exact Or.inl (List.mem_cons_of_mem x later)
    · rcases step xs x y earlier with rfl | before
      · exact Or.inl List.mem_cons_self
      · exact Or.inr before

/-- A write keeps keys distinct. -/
theorem nodup_put {key : α → κ} {xs : List α} (x : α) (once : (xs.map key).Nodup) :
    ((put key x xs).map key).Nodup := by
  rw [keys_put]
  exact nodup_extend (key x) once

/-- The keys after many writes are the distinct keys of all entries, first ones first. -/
theorem keys_putAll (key : α → κ) (ys xs : List α) (distinctKeys : (xs.map key).Nodup) :
    (putAll key ys xs).map key = distinct (xs.map key ++ ys.map key) := by
  induction ys generalizing xs with
  | nil => simp [putAll, distinct_of_nodup distinctKeys]
  | cons y ys ih =>
    have keys : (put key y xs).map key = distinct (xs.map key ++ [key y]) := by
      rw [keys_put, distinct_concat, distinct_of_nodup distinctKeys]
    have step : putAll key (y :: ys) xs = putAll key ys (put key y xs) := rfl
    rw [step, ih _ (nodup_put y distinctKeys), keys, distinct_distinct_append]
    simp

/-- Writing an entry that is found under its key changes nothing. -/
theorem put_of_get?_self {key : α → κ} {x : α} {xs : List α}
    (there : get? key (key x) xs = some x) : put key x xs = xs := by
  induction xs with
  | nil => cases there
  | cons y ys ih =>
    rw [get?, List.find?_cons] at there
    by_cases same : key y = key x
    · simp only [same, decide_true, Option.some.injEq] at there
      rw [put, if_pos same, there]
    · rw [put, if_neg same, ih (by simpa [same, get?] using there)]

/-- Of two writes under one key the later one stays. -/
theorem put_put_of_key_eq {key : α → κ} {x y : α} (same : key y = key x) (xs : List α) :
    put key x (put key y xs) = put key x xs := by
  induction xs with
  | nil => simp [put, same]
  | cons z zs ih =>
    by_cases here : key z = key x
    · simp [put, same, here]
    · simp [put, same, here, ih]

/-- Writes under two keys may change places if one of the keys has an entry already. -/
theorem put_put_comm {key : α → κ} {x y : α} {xs : List α} (there : key x ∈ xs.map key)
    (other : key y ≠ key x) : put key x (put key y xs) = put key y (put key x xs) := by
  induction xs with
  | nil => cases there
  | cons z zs ih =>
    by_cases hx : key z = key x
    · have hy : key z ≠ key y := fun e => other (e.symm.trans hx)
      have hy' : key x ≠ key y := fun e => other e.symm
      simp [put, hx, hy']
    · have later : key x ∈ zs.map key := by
        rcases List.mem_cons.1 there with here | later
        · exact absurd here.symm hx
        · exact later
      by_cases hy : key z = key y
      · simp [put, hy, other]
      · simp [put, hx, hy, ih later]

/-- A write under a key that has an entry may come before writes under other keys. -/
theorem put_putAll_comm {key : α → κ} {x : α} {ys xs : List α} (there : key x ∈ xs.map key)
    (apart : key x ∉ ys.map key) :
    put key x (putAll key ys xs) = putAll key ys (put key x xs) := by
  induction ys generalizing xs with
  | nil => rfl
  | cons y ys ih =>
    rw [List.map_cons, List.mem_cons, not_or] at apart
    have still : key x ∈ (put key y xs).map key := by
      rw [keys_put]
      split
      · exact there
      · exact List.mem_append_left _ there
    show put key x (putAll key ys (put key y xs)) = putAll key ys (put key y (put key x xs))
    rw [ih still apart.2, put_put_comm there fun e => apart.1 e.symm]

/-- Writing an entry after a table of writes is writing the table with that entry in it. -/
theorem put_putAll {key : α → κ} (x : α) {ys : List α} (once : (ys.map key).Nodup)
    (xs : List α) : put key x (putAll key ys xs) = putAll key (put key x ys) xs := by
  induction ys generalizing xs with
  | nil => rfl
  | cons y ys ih =>
    rw [List.map_cons, List.nodup_cons] at once
    by_cases same : key y = key x
    · have there : key x ∈ (put key y xs).map key := by
        rw [keys_put, same]
        split
        · assumption
        · exact List.mem_append_right _ (List.mem_singleton_self _)
      rw [put, if_pos same]
      show put key x (putAll key ys (put key y xs)) = putAll key ys (put key x xs)
      rw [put_putAll_comm there (same ▸ once.1), put_put_of_key_eq same]
    · rw [put, if_neg same]
      exact ih once.2 (put key y xs)

/-- Two tables of writes one after the other are one table of writes. -/
theorem putAll_putAll {key : α → κ} (zs : List α) {ys : List α} (once : (ys.map key).Nodup)
    (xs : List α) : putAll key zs (putAll key ys xs) = putAll key (putAll key zs ys) xs := by
  induction zs generalizing ys with
  | nil => rfl
  | cons z zs ih =>
    calc putAll key zs (put key z (putAll key ys xs))
        = putAll key zs (putAll key (put key z ys) xs) := by rw [put_putAll z once]
      _ = putAll key (putAll key zs (put key z ys)) xs := ih (nodup_put z once)

/-- Writing entries that are all found under their keys changes nothing. -/
theorem putAll_of_get?_self {key : α → κ} {ys xs : List α}
    (there : ∀ y ∈ ys, get? key (key y) xs = some y) : putAll key ys xs = xs := by
  induction ys with
  | nil => rfl
  | cons y ys ih =>
    obtain ⟨here, later⟩ := List.forall_mem_cons.1 there
    show putAll key ys (put key y xs) = xs
    rw [put_of_get?_self here, ih later]

end Tables

/-! ## Entries that are appended where new -/

section New

variable {α : Type} {covers : α → α → Bool} {xs ys : List α}

/-- Appends an entry unless one of the list covers it. -/
def addUnlessCovered (covers : α → α → Bool) (xs : List α) (x : α) : List α :=
  if xs.any (covers · x) then xs else xs ++ [x]

theorem eq_or_mem_of_mem_addUnlessCovered {x y : α} (h : y ∈ addUnlessCovered covers xs x) :
    y = x ∨ y ∈ xs := by
  unfold addUnlessCovered at h
  split at h
  · exact Or.inr h
  · simpa [or_comm] using h

/-- Where covering goes both ways, entries alike are appended once if there is none before, and
not at all otherwise. -/
theorem countP_foldl_addUnlessCovered {x : α}
    (symm : ∀ y ∈ ys, ∀ z, covers y z = true → covers z y = true)
    (trans : ∀ x y z, covers x y = true → covers y z = true → covers x z = true) :
    (ys.foldl (addUnlessCovered covers) xs).countP (covers · x)
      = max (xs.countP (covers · x)) (min 1 (ys.countP (covers · x))) := by
  induction ys generalizing xs with
  | nil => simp
  | cons y ys ih =>
    obtain ⟨here, later⟩ := List.forall_mem_cons.1 symm
    rw [List.foldl_cons, ih later]
    by_cases alike : covers y x = true
    · by_cases there : xs.any (covers · y) = true
      · -- What covers the entry comes before it and is alike.
        obtain ⟨z, hz, covered⟩ := List.any_eq_true.1 there
        have before : 0 < xs.countP (covers · x) :=
          List.countP_pos_iff.2 ⟨z, hz, trans z y x covered alike⟩
        rw [addUnlessCovered, if_pos there, List.countP_cons, if_pos alike]
        omega
      · have none : xs.countP (covers · x) = 0 := by
          rw [List.countP_eq_zero]
          intro z hz same
          exact there (List.any_eq_true.2 ⟨z, hz, trans z x y same (here x alike)⟩)
        rw [addUnlessCovered, if_neg there, List.countP_append, none, List.countP_singleton,
          List.countP_cons, if_pos alike]
        omega
    · have same : (addUnlessCovered covers xs y).countP (covers · x)
          = xs.countP (covers · x) := by
        unfold addUnlessCovered
        split
        · rfl
        · rw [List.countP_append, List.countP_singleton, if_neg alike, Nat.add_zero]
      rw [same, List.countP_cons, if_neg alike, Nat.add_zero]

/-- Of entries appended where new, none covers a later one. -/
theorem pairwise_foldl_addUnlessCovered
    (apart : xs.Pairwise fun x y => covers x y = false) :
    (ys.foldl (addUnlessCovered covers) xs).Pairwise fun x y => covers x y = false := by
  induction ys generalizing xs with
  | nil => exact apart
  | cons y ys ih =>
    apply ih
    unfold addUnlessCovered
    split
    · exact apart
    · rename_i new
      rw [List.any_eq_true, not_exists] at new
      refine List.pairwise_append.2 ⟨apart, List.pairwise_singleton _ _, ?_⟩
      intro x hx z hz
      rw [List.mem_singleton.1 hz]
      exact Bool.eq_false_iff.2 fun same => new x ⟨hx, same⟩

/-- Entries of which none covers a later one are all appended. -/
theorem foldl_addUnlessCovered_of_pairwise
    (apart : (xs ++ ys).Pairwise fun x y => covers x y = false) :
    ys.foldl (addUnlessCovered covers) xs = xs ++ ys := by
  induction ys generalizing xs with
  | nil => rw [List.append_nil, List.foldl_nil]
  | cons y ys ih =>
    have new : ¬xs.any (covers · y) = true := by
      rw [List.any_eq_true]
      rintro ⟨x, hx, same⟩
      exact Bool.eq_false_iff.1
        ((List.pairwise_append.1 apart).2.2 x hx y List.mem_cons_self) same
    have longer : xs ++ y :: ys = xs ++ [y] ++ ys := by simp
    rw [List.foldl_cons, addUnlessCovered, if_neg new, ih (longer ▸ apart), longer]

/-- What was covered before an entry is appended is so afterwards. -/
theorem any_addUnlessCovered {p : α → Bool} (x : α) (h : xs.any p = true) :
    (addUnlessCovered covers xs x).any p = true := by
  unfold addUnlessCovered
  split
  · exact h
  · rw [List.any_append, h, Bool.true_or]

theorem any_foldl_addUnlessCovered {p : α → Bool} (h : xs.any p = true) :
    (ys.foldl (addUnlessCovered covers) xs).any p = true := by
  induction ys generalizing xs with
  | nil => exact h
  | cons y ys ih => exact ih (any_addUnlessCovered y h)

/-- Entries that are all covered are not appended. -/
theorem foldl_addUnlessCovered_of_covered (h : ∀ y ∈ ys, xs.any (covers · y) = true) :
    ys.foldl (addUnlessCovered covers) xs = xs := by
  induction ys with
  | nil => rfl
  | cons y ys ih =>
    obtain ⟨here, later⟩ := List.forall_mem_cons.1 h
    rw [List.foldl_cons, addUnlessCovered, if_pos here, ih later]

/-- What covers is transitive: what a list covers is covered once the list is appended. -/
theorem any_foldl_of_any {x : α}
    (trans : ∀ x y z, covers x y = true → covers y z = true → covers x z = true)
    (h : ys.any (covers · x) = true) :
    (ys.foldl (addUnlessCovered covers) xs).any (covers · x) = true := by
  induction ys generalizing xs with
  | nil => cases h
  | cons y ys ih =>
    rw [List.any_cons, Bool.or_eq_true] at h
    rcases h with here | later
    · -- Either the entry was appended, or one that covers it was there.
      rw [List.foldl_cons]
      apply any_foldl_addUnlessCovered
      unfold addUnlessCovered
      split
      · rename_i there
        obtain ⟨z, hz, covered⟩ := List.any_eq_true.1 there
        exact List.any_eq_true.2 ⟨z, hz, trans z y x covered here⟩
      · simp [here]
    · exact ih later

/-- Appending two lists one after the other is appending what the two come to. -/
theorem foldl_addUnlessCovered_foldl (zs : List α)
    (trans : ∀ x y z, covers x y = true → covers y z = true → covers x z = true) :
    zs.foldl (addUnlessCovered covers) (ys.foldl (addUnlessCovered covers) xs)
      = (zs.foldl (addUnlessCovered covers) ys).foldl (addUnlessCovered covers) xs := by
  induction zs generalizing ys with
  | nil => rfl
  | cons z zs ih =>
    have step : addUnlessCovered covers (ys.foldl (addUnlessCovered covers) xs) z
        = (addUnlessCovered covers ys z).foldl (addUnlessCovered covers) xs := by
      by_cases there : ys.any (covers · z) = true
      · have above : (ys.foldl (addUnlessCovered covers) xs).any (covers · z) = true :=
          any_foldl_of_any trans there
        rw [addUnlessCovered, if_pos above, addUnlessCovered, if_pos there]
      · have appended : addUnlessCovered covers ys z = ys ++ [z] := if_neg there
        rw [appended, List.foldl_append, List.foldl_cons, List.foldl_nil]
    rw [List.foldl_cons, List.foldl_cons, step, ih]

end New

end BeanWiring.Keyed
