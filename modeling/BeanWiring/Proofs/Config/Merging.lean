/-
# Which entry is kept

A table that declarations are added to one after the other keeps, of those of one key, the
last where overriding is allowed and the first otherwise.  A config set treats the beans and
the aliases of its members in this way, as if all of them were declared in one place.

Main statements:

* `get?_foldl_addEntry` : the look-up after many additions;
* `keys_foldl_addEntry` : the keys after many additions, the same under both policies;
* `followsPolicy_beans`, `followsPolicy_aliases` : how a merged set treats beans and aliases;
* `beans_ofMembers`, `aliases_ofMembers`, `components_ofMembers` : what a merged set holds.
-/
import Mathlib.Data.List.Induction
import BeanWiring.Config.Merged
import BeanWiring.Proofs.Keyed

namespace BeanWiring

/-! ## One of many -/

namespace Keyed

variable {κ α : Type} [DecidableEq κ] {allowed : Bool} {key : α → κ} {k : κ} {x : α}
  {xs ys : List α}

/-- The entry of a key that counts: the last one if later ones may override, else the first. -/
def kept (allowed : Bool) (key : α → κ) (k : κ) (xs : List α) : Option α :=
  if allowed then (xs.filter (key · = k)).getLast? else (xs.filter (key · = k)).head?

/-- Where nothing may override, a plain look-up finds the entry. -/
theorem kept_false : kept false key k xs = get? key k xs :=
  List.head?_filter

/-- The first entry counts if nothing may override, or if nothing does. -/
theorem kept_eq_kept_false_iff : kept allowed key k xs = kept false key k xs ↔
    allowed = false ∨ kept true key k xs = kept false key k xs := by
  cases allowed with
  | true => simp
  | false => simp

/-- Only the entries of the key count. -/
theorem kept_congr (same : xs.filter (key · = k) = ys.filter (key · = k)) :
    kept allowed key k xs = kept allowed key k ys := by
  rw [kept, kept, same]

theorem mem_of_kept (h : kept allowed key k xs = some x) : x ∈ xs ∧ key x = k := by
  have there : x ∈ xs.filter (key · = k) := by
    cases allowed with
    | true => exact List.mem_of_getLast? h
    | false => exact List.mem_of_head? h
  exact ⟨(List.mem_filter.1 there).1, by simpa using (List.mem_filter.1 there).2⟩

/-- A key that has entries has one that counts, whatever the policy. -/
theorem exists_kept (allowed : Bool) (there : x ∈ xs) (named : key x = k) :
    ∃ y, kept allowed key k xs = some y := by
  have some : xs.filter (key · = k) ≠ [] :=
    List.ne_nil_of_mem (List.mem_filter.2 ⟨there, by simpa using named⟩)
  cases allowed with
  | true => exact ⟨_, List.getLast?_eq_some_getLast some⟩
  | false => exact ⟨_, List.head?_eq_some_head some⟩

/-- One more entry counts only for its own key, and there depending on the policy. -/
theorem kept_concat : kept allowed key k (xs ++ [x])
    = if key x = k then (if allowed then some x else (kept allowed key k xs).or (some x))
      else kept allowed key k xs := by
  unfold kept
  rw [List.filter_append]
  by_cases h : key x = k
  · cases allowed with
    | true => simp [h]
    | false => simp [h, List.head?_append]
  · simp [h]

/-- A look-up after many additions finds the entry that counts. -/
theorem get?_foldl_addEntry (allowed : Bool) (key : α → κ) (k : κ) (xs : List α) :
    get? key k (xs.foldl (MergedSet.addEntry key allowed) []) = kept allowed key k xs := by
  -- From the end, since each addition is to the table of all entries before it.
  induction xs using List.reverseRecOn with
  | nil => cases allowed <;> rfl
  | append_singleton xs x ih =>
    rw [List.foldl_append, List.foldl_cons, List.foldl_nil, kept_concat, ← ih]
    cases allowed with
    | true => exact MergedSet.get?_addEntry_allowed key k _ x
    | false =>
      rw [MergedSet.get?_addEntry_forbidden]
      by_cases h : key x = k
      · simp [h]
      · simp [h]

/-- An addition keeps the keys in order and adds its own at the end if it is new. -/
theorem keys_addEntry (allowed : Bool) (key : α → κ) (x : α) (xs : List α) :
    (MergedSet.addEntry key allowed xs x).map key
      = if key x ∈ xs.map key then xs.map key else xs.map key ++ [key x] := by
  cases allowed with
  | true => exact keys_put key x xs
  | false =>
    have taken : has key (key x) xs = true ↔ key x ∈ xs.map key := by
      rw [has, List.any_eq_true, List.mem_map]
      simp only [decide_eq_true_iff]
    show (putNew key x xs).map key = _
    unfold putNew
    by_cases there : key x ∈ xs.map key
    · rw [if_pos there, if_pos (taken.2 there)]
    · rw [if_neg there, if_neg (mt taken.1 there), List.map_append]
      rfl

/-- An addition keeps keys distinct. -/
theorem nodup_addEntry (x : α) (once : (xs.map key).Nodup) :
    ((MergedSet.addEntry key allowed xs x).map key).Nodup := by
  rw [keys_addEntry]
  exact nodup_extend (key x) once

/-- The keys after many additions are the distinct keys of all entries, first ones first. -/
theorem keys_foldl_addEntry (allowed : Bool) (key : α → κ) (xs : List α) :
    (xs.foldl (MergedSet.addEntry key allowed) []).map key = distinct (xs.map key) := by
  induction xs using List.reverseRecOn with
  | nil => rfl
  | append_singleton xs x ih =>
    rw [List.foldl_append, List.foldl_cons, List.foldl_nil, keys_addEntry, ih, List.map_append,
      List.map_singleton, distinct_concat]

/-! ### Tables that follow a policy -/

/-- A table of entries of which those of one key count according to a policy, and its look-up:
each key that occurs is listed once, in the order of first occurrence, and with the entry that
counts, which is also what is found. -/
structure FollowsPolicy (allowed : Bool) (key : α → κ) (xs table : List α) (find : κ → Option α) :
    Prop where
  keys : table.map key = distinct (xs.map key)
  finds : ∀ k, find k = kept allowed key k xs
  lists : ∀ y ∈ table, find (key y) = some y

/-- A table that follows a policy has only the entries that it was made of. -/
theorem FollowsPolicy.mem_of_mem {allowed : Bool} {key : α → κ} {xs table : List α}
    {find : κ → Option α} (h : FollowsPolicy allowed key xs table find) {x : α}
    (listed : x ∈ table) : x ∈ xs := by
  have found := h.lists x listed
  rw [h.finds] at found
  exact (mem_of_kept found).1

/-- A policy leaves no choice of what is listed. -/
theorem FollowsPolicy.table_eq {allowed : Bool} {key : α → κ} {xs table table' : List α}
    {find find' : κ → Option α} (h : FollowsPolicy allowed key xs table find)
    (h' : FollowsPolicy allowed key xs table' find') : table = table' := by
  have same : find = find' := funext fun k => (h.finds k).trans (h'.finds k).symm
  -- What is listed is what is found under the keys, and these are the same.
  have listed : ∀ {table find}, FollowsPolicy allowed key xs table find →
      table.map some = (distinct (xs.map key)).map find := by
    intro table find h
    rw [← h.keys, List.map_map]
    exact List.map_congr_left fun y listed => (h.lists y listed).symm
  rw [← List.map_inj_right fun _ _ => Option.some.inj, listed h, listed h', same]

/-- The table that many additions make follows the policy. -/
theorem followsPolicy_foldl (allowed : Bool) (key : α → κ) (xs : List α) :
    FollowsPolicy allowed key xs (xs.foldl (MergedSet.addEntry key allowed) [])
      fun k => get? key k (xs.foldl (MergedSet.addEntry key allowed) []) where
  keys := keys_foldl_addEntry allowed key xs
  finds := fun k => get?_foldl_addEntry allowed key k xs
  lists := by
    intro y listed
    have once : ((xs.foldl (MergedSet.addEntry key allowed) []).map key).Nodup :=
      keys_foldl_addEntry allowed key xs ▸ nodup_distinct _
    exact get?_key_of_mem once listed

end Keyed

/-! ## Merged sets -/

namespace MergedSet

variable {C : Type} (settings : SetSettings) (members : List (C × ConfigTree))

theorem ofMembers_concat (m : C × ConfigTree) :
    ofMembers settings (members ++ [m]) = (ofMembers settings members).addMember settings m.1 m.2 :=
  List.foldl_append

/-- The beans of a merged set are those of its members, added one after the other. -/
theorem beans_ofMembers : (ofMembers settings members).beans
    = (members.flatMap fun m => m.2.beans).foldl
        (addEntry Bean.name settings.allowBeanOverriding) [] := by
  induction members using List.reverseRecOn with
  | nil => rfl
  | append_singleton members m ih =>
    rw [ofMembers_concat, List.flatMap_append, List.foldl_append, ← ih, List.flatMap_singleton]
    rfl

/-- So are its aliases. -/
theorem aliases_ofMembers : (ofMembers settings members).aliases
    = (members.flatMap fun m => m.2.aliases).foldl
        (addEntry BeanAlias.name settings.allowAliasOverriding) [] := by
  induction members using List.reverseRecOn with
  | nil => rfl
  | append_singleton members m ih =>
    rw [ofMembers_concat, List.flatMap_append, List.foldl_append, ← ih, List.flatMap_singleton]
    rfl

/-- The beans of a merged set follow the policy for beans. -/
theorem followsPolicy_beans : Keyed.FollowsPolicy settings.allowBeanOverriding Bean.name
    (members.flatMap fun m => m.2.beans) (ofMembers settings members).beans
    (ofMembers settings members).bean? := by
  have find : (ofMembers settings members).bean?
      = fun name => Keyed.get? Bean.name name (ofMembers settings members).beans := rfl
  rw [find, beans_ofMembers]
  exact Keyed.followsPolicy_foldl _ _ _

/-- And its aliases follow the policy for aliases. -/
theorem followsPolicy_aliases : Keyed.FollowsPolicy settings.allowAliasOverriding BeanAlias.name
    (members.flatMap fun m => m.2.aliases) (ofMembers settings members).aliases
    (ofMembers settings members).aliasOf? := by
  have find : (ofMembers settings members).aliasOf?
      = fun name => Keyed.get? BeanAlias.name name (ofMembers settings members).aliases := rfl
  rw [find, aliases_ofMembers]
  exact Keyed.followsPolicy_foldl _ _ _

/-- The components of a merged set are those of all its members. -/
theorem components_ofMembers :
    (ofMembers settings members).components = members.flatMap fun m => m.2.components := by
  induction members using List.reverseRecOn with
  | nil => rfl
  | append_singleton members m ih =>
    rw [ofMembers_concat, List.flatMap_append, ← ih, List.flatMap_singleton]
    rfl

end MergedSet

end BeanWiring
