/-
# Lists with keyed entries

Tables that are read in the order in which their entries were first written: a list
whose entries carry a key, where writing an entry replaces the one with the same key
*in place* and otherwise appends.  Also the list of distinct entries, first
occurrences first.

Main statements:

* `get?_put` : what a look-up finds after a write;
* `keys_put` : a write keeps the order of the keys and adds at most one at the end;
* `mem_distinct`, `nodup_distinct` : `distinct` has the same members, each once.
-/

namespace BeanWiring.Keyed

variable {κ α : Type} [DecidableEq κ]

/-! ## Tables -/

/-- The first entry with key `k`. -/
def get? (key : α → κ) (k : κ) (xs : List α) : Option α :=
  xs.find? fun x => key x = k

/-- Whether some entry has key `k`. -/
def has (key : α → κ) (k : κ) (xs : List α) : Bool :=
  xs.any fun x => key x = k

/-- Writes an entry: over the first one with its key, or else at the end. -/
def put (key : α → κ) (x : α) : List α → List α
  | [] => [x]
  | y :: ys => if key y = key x then x :: ys else y :: put key x ys

/-- Writes an entry unless its key is taken. -/
def putNew (key : α → κ) (x : α) (xs : List α) : List α :=
  if has key (key x) xs then xs else xs ++ [x]

/-- Drops every entry with key `k`. -/
def erase (key : α → κ) (k : κ) (xs : List α) : List α :=
  xs.filter fun x => key x ≠ k

/-- Changes the entries with key `k`. -/
def update (key : α → κ) (k : κ) (f : α → α) (xs : List α) : List α :=
  xs.map fun x => if key x = k then f x else x

/-! ## Laws of tables -/

theorem has_eq_isSome (key : α → κ) (k : κ) (xs : List α) :
    has key k xs = (get? key k xs).isSome := by
  induction xs with
  | nil => rfl
  | cons x xs ih =>
    simp only [has, get?, List.any_cons, List.find?_cons] at *
    by_cases h : key x = k <;> simp [h, ih]

theorem has_iff_mem {key : α → κ} {k : κ} {xs : List α} :
    has key k xs = true ↔ k ∈ xs.map key := by
  simp [has]

theorem lookup_isSome_iff_mem {k : κ} {xs : List (κ × α)} :
    (xs.lookup k).isSome = true ↔ k ∈ xs.map Prod.fst := by
  rw [List.lookup_isSome_iff, List.mem_map]
  refine exists_congr fun x => and_congr_right fun _ => ?_
  rw [beq_iff_eq, eq_comm]

theorem mem_of_lookup {k : κ} {x : α} {xs : List (κ × α)} (found : xs.lookup k = some x) :
    (k, x) ∈ xs := by
  obtain ⟨before, after, split, -⟩ := List.lookup_eq_some_iff.1 found
  rw [split]
  exact List.mem_append_right _ List.mem_cons_self

/-- A write answers its own key and leaves the answers to other keys alone. -/
theorem get?_put (key : α → κ) (k : κ) (x : α) (xs : List α) :
    get? key k (put key x xs) = if key x = k then some x else get? key k xs := by
  induction xs with
  | nil => by_cases h : key x = k <;> simp [get?, put, h]
  | cons y ys ih =>
    simp only [get?] at ih
    by_cases hy : key y = key x
    · by_cases h : key x = k <;> simp [get?, put, hy, h]
    · by_cases h : key y = k
      · have hx : key x ≠ k := fun e => hy (h.trans e.symm)
        have hk : k ≠ key x := fun e => hx e.symm
        simp [get?, put, h, hx, hk]
      · simp [get?, put, hy, h, ih]

/-- A guarded write only answers a key that had no entry. -/
theorem get?_putNew (key : α → κ) (k : κ) (x : α) (xs : List α) :
    get? key k (putNew key x xs)
      = (get? key k xs).or (if key x = k then some x else none) := by
  unfold putNew
  by_cases h : has key (key x) xs
  · rw [if_pos h]
    by_cases hk : key x = k
    · rw [has_eq_isSome, hk, Option.isSome_iff_exists] at h
      obtain ⟨y, hy⟩ := h
      simp [hy]
    · simp [hk]
  · rw [if_neg h]
    by_cases hk : key x = k <;> simp [get?, List.find?_append, hk]

/-- A write keeps the keys in order and adds its own at the end if it is new. -/
theorem keys_put (key : α → κ) (x : α) (xs : List α) :
    (put key x xs).map key
      = if key x ∈ xs.map key then xs.map key else xs.map key ++ [key x] := by
  induction xs with
  | nil => simp [put]
  | cons y ys ih =>
    by_cases hy : key y = key x
    · simp [put, hy]
    · have hne : key x ≠ key y := fun e => hy e.symm
      simp only [put, hy, if_false, List.map_cons, ih, List.mem_cons, hne, false_or]
      split <;> simp

/-- An erased key has no entry, and the other keys keep theirs. -/
theorem get?_erase (key : α → κ) (k j : κ) (xs : List α) :
    get? key j (erase key k xs) = if j = k then none else get? key j xs := by
  induction xs with
  | nil => simp [get?, erase]
  | cons x xs ih =>
    simp only [get?, erase] at ih
    by_cases hx : key x = k
    · by_cases hj : j = k
      · simp_all [get?, erase]
      · have : key x ≠ j := fun e => hj (e.symm.trans hx)
        simp_all [get?, erase]
    · by_cases hj : key x = j
      · have : j ≠ k := fun e => hx (hj.trans e)
        simp_all [get?, erase]
      · simp_all [get?, erase]

/-- Where a key has no entry, there is none to erase. -/
theorem erase_of_notMem {key : α → κ} {k : κ} {xs : List α} (absent : k ∉ xs.map key) :
    erase key k xs = xs := by
  refine List.filter_eq_self.2 fun x listed => decide_eq_true ?_
  rintro rfl
  exact absent (List.mem_map_of_mem listed)

/-! ## Distinct entries -/

/-- The entries of a list without repetitions, in order of first occurrence. -/
def distinct [DecidableEq α] : List α → List α
  | [] => []
  | x :: xs => x :: (distinct xs).filter (· ≠ x)

/-- `distinct` has the members of the list. -/
theorem mem_distinct [DecidableEq α] {x : α} {xs : List α} : x ∈ distinct xs ↔ x ∈ xs := by
  induction xs with
  | nil => simp [distinct]
  | cons y ys ih =>
    by_cases h : x = y <;> simp [distinct, h, ih]

/-- `distinct` has each member once. -/
theorem nodup_distinct [DecidableEq α] (xs : List α) : (distinct xs).Nodup := by
  induction xs with
  | nil => simp [distinct]
  | cons y ys ih =>
    simp only [distinct, List.nodup_cons]
    exact ⟨by simp, ih.filter _⟩

end BeanWiring.Keyed
