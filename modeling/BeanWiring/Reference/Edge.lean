/-
# Reference edges

Edges from a part of a bean to a bean that it depends on, and sets of them in the order
in which they were found.  Edges with one key count as one, and the first stays.

Main statement: `toList_insert`, that inserting an edge adds it at the end of the list
unless its key is there.
-/
import BeanWiring.Reference.Named
import Std.Data.HashSet.Lemmas

namespace BeanWiring

/-! ## Edges -/

/-- The part of a bean that an edge starts from. -/
inductive Member where
  | bean
  /-- An argument by its position among all arguments. -/
  | argument (position : Nat)
  | property (name : String)
deriving DecidableEq, Hashable

/-- An edge from a part of a bean to another bean. -/
structure Reference where
  kind : ReferenceKind
  source : Bean
  member : Member
  target : Bean
  /-- The name of the context in which the target was looked up. -/
  context : String
  /-- Whether the edge was found inside an inner bean of the source. -/
  isInner : Bool

/-- What tells edges apart: beans count by their identity. -/
structure ReferenceKey where
  kind : ReferenceKind
  source : BeanId
  member : Member
  target : BeanId
  context : String
  isInner : Bool
deriving DecidableEq, Hashable

namespace Reference

/-- The key of an edge. -/
def key (r : Reference) : ReferenceKey :=
  ⟨r.kind, r.source.id, r.member, r.target.id, r.context, r.isInner⟩

/-- An edge found inside an inner bean of `b`, as an edge of `b` as a whole. -/
def creditedTo (b : Bean) (r : Reference) : Reference :=
  { r with source := b, member := .bean, isInner := true }

end Reference

/-! ## Sets of edges -/

/-- Edges in the order in which they were found, no two of them with one key. -/
structure EdgeSet where
  toArray : Array Reference := #[]
  /-- The keys of the edges, for a quick look. -/
  keys : Std.HashSet ReferenceKey := ∅
  /-- The keys are those of the edges. -/
  mem_keys : ∀ k, k ∈ keys ↔ k ∈ toArray.toList.map Reference.key := by simp
  /-- No edge is listed twice. -/
  nodup : (toArray.toList.map Reference.key).Nodup := by simp

namespace EdgeSet

/-- The edges in order. -/
def toList (s : EdgeSet) : List Reference := s.toArray.toList

/-- Whether an edge with the key is in the set. -/
def has (s : EdgeSet) (k : ReferenceKey) : Bool := s.keys.contains k

theorem has_iff {s : EdgeSet} {k : ReferenceKey} :
    s.has k = true ↔ k ∈ s.toList.map Reference.key := by
  rw [has, Std.HashSet.contains_iff_mem]
  exact s.mem_keys k

/-- Adds an edge at the end unless one with its key is in the set. -/
def insert (s : EdgeSet) (r : Reference) : EdgeSet :=
  if h : s.has r.key then
    s
  else
    { toArray := s.toArray.push r
      keys := s.keys.insert r.key
      mem_keys := by
        intro k
        rw [Std.HashSet.mem_insert, s.mem_keys, beq_iff_eq, Array.toList_push,
          List.map_append, List.mem_append, List.map_singleton, List.mem_singleton, or_comm]
        exact or_congr_right eq_comm
      nodup := by
        rw [has_iff, toList] at h
        rw [Array.toList_push, List.map_append, List.nodup_append]
        refine ⟨s.nodup, by simp, ?_⟩
        intro a ha b hb
        rintro rfl
        exact h (by simp_all) }

/-- An edge comes to stand at the end unless its key is taken. -/
theorem toList_insert (s : EdgeSet) (r : Reference) :
    (s.insert r).toList = Keyed.putNew Reference.key r s.toList := by
  have : s.has r.key = Keyed.has Reference.key r.key s.toList := by
    rw [Bool.eq_iff_iff, has_iff]
    simp [Keyed.has]
  unfold insert Keyed.putNew
  rw [← this]
  split <;> simp [toList]

/-- The keys of a set with one more edge. -/
theorem mem_keys_insert {s : EdgeSet} {r : Reference} {k : ReferenceKey} :
    k ∈ (s.insert r).toList.map Reference.key
      ↔ k ∈ s.toList.map Reference.key ∨ k = r.key := by
  rw [← has_iff, ← has_iff]
  unfold insert
  split
  · rename_i h
    constructor
    · exact Or.inl
    · rintro (hk | rfl)
      · exact hk
      · exact h
  · rw [has, has, Std.HashSet.contains_iff_mem, Std.HashSet.contains_iff_mem,
      Std.HashSet.mem_insert, beq_iff_eq, or_comm]
    exact or_congr_right eq_comm

end EdgeSet

end BeanWiring
