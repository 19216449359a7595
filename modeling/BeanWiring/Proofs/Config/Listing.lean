/-
# Listings of config trees

What the configs of a tree say, each by itself, in the order of the tree.  Questions to a config
are answered from this list alone, and those for the first config that has something from its
beginning, up to that config.

Main statements:

* `listing_eq` : the listing of a tree in terms of those of what it imports;
* `searched_append` : a search that ends within the beginning of the listing goes no further;
* `any_or_nil_of_searched_le` : what it goes through has what is searched, or is everything.
-/
import BeanWiring.Config.Tree

namespace BeanWiring

/-! ## Nodes -/

namespace ConfigTree

/-- The first node of a tree is the config itself. -/
theorem nodes_eq (t : ConfigTree) : t.nodes = t :: nodesOfImports t.contents.imports := by
  obtain ⟨_, _, _, _, _, _, _, _⟩ := t
  rw [nodes]

/-- The configs of imports are those of what the imports pulled in. -/
theorem nodesOfImports_eq_flatMap (imports : List (Import ConfigTree)) :
    nodesOfImports imports = (imports.filterMap Import.target).flatMap nodes := by
  induction imports with
  | nil => simp [nodesOfImports]
  | cons i rest ih =>
    obtain ⟨resource, location, target⟩ := i
    cases target with
    | none => simp [nodesOfImports, ih]
    | some t => simp [nodesOfImports, ih]

end ConfigTree

/-! ## Listings -/

/-- What a document says, but not what its imports lead to. -/
def Contents.own {C : Type} (c : Contents C) : Contents Empty := { c with imports := [] }

namespace ConfigTree

/-- What the configs of a tree say, in order. -/
def listing (t : ConfigTree) : List (Contents Empty) := t.nodes.map fun node => node.contents.own

/-- The listing of a tree goes through its document, then through the listings of its imports. -/
theorem listing_eq (t : ConfigTree) :
    t.listing = t.contents.own :: t.contents.importedConfigs.flatMap listing := by
  rw [listing, nodes_eq, nodesOfImports_eq_flatMap, List.map_cons, List.map_flatMap]
  rfl

theorem listing_ne_nil (t : ConfigTree) : t.listing ≠ [] := by
  rw [listing_eq]
  exact List.cons_ne_nil _ _

theorem length_listing (t : ConfigTree) : t.listing.length = t.size := List.length_map _

/-! ## Questions

What a question looks at in each config is the same in what the config says by itself. -/

/-- What the nodes of a tree give, their imports left out, its listing gives. -/
theorem flatMap_nodes {B : Type} (t : ConfigTree) (f : Contents Empty → List B) :
    t.nodes.flatMap (fun node => f node.contents.own) = t.listing.flatMap f := by
  rw [listing, List.flatMap_map]

/-- What is searched in the nodes of a tree is searched in its listing. -/
theorem findSome?_nodes {B : Type} (t : ConfigTree) (f : Contents Empty → Option B) :
    t.nodes.findSome? (fun node => f node.contents.own) = t.listing.findSome? f := by
  rw [listing, List.findSome?_map]
  rfl

/-- What holds of some node of a tree holds of some entry of its listing. -/
theorem any_nodes (t : ConfigTree) (p : Contents Empty → Bool) :
    t.nodes.any (fun node => p node.contents.own) = t.listing.any p := by
  rw [listing, List.any_map]
  rfl

/-- How many entries of a list a search goes through. -/
def searched {A : Type} (p : A → Bool) (xs : List A) : Nat := min (xs.findIdx p + 1) xs.length

/-- A search goes through as many nodes as entries of the listing. -/
theorem reachAmong_nodes (t : ConfigTree) (p : Contents Empty → Bool) :
    reachAmong t.nodes (fun c => p c.own) = searched p t.listing := by
  rw [searched, listing, List.findIdx_map, List.length_map]
  rfl

/-! ## Searches -/

section Search

variable {A : Type} {p : A → Bool} {front back : List A}

/-- A search for nothing goes through all entries. -/
theorem searched_false (xs : List A) : searched (fun _ => false) xs = xs.length := by
  have none : xs.findIdx (fun _ => false) = xs.length :=
    List.findIdx_eq_length_of_false fun _ _ => rfl
  rw [searched, none]
  omega

/-- A search goes on after an entry that does not have what is searched. -/
theorem searched_cons (x : A) (xs : List A) :
    searched p (x :: xs) = if p x then 1 else searched p xs + 1 := by
  rw [searched, searched, List.findIdx_cons, List.length_cons]
  cases p x with
  | true => simp
  | false =>
    rw [if_neg (by simp), cond_false]
    omega

/-- A search that ends within the front goes no further. -/
theorem searched_append (found : front.any p = true) :
    searched p (front ++ back) = searched p front := by
  have inside : front.findIdx p < front.length := by
    obtain ⟨x, listed, holds⟩ := List.any_eq_true.1 found
    exact List.findIdx_lt_length_of_exists ⟨x, listed, holds⟩
  rw [searched, searched, List.findIdx_append, if_pos inside, List.length_append]
  omega

/-- What a search goes through has what is searched, or is everything. -/
theorem any_or_nil_of_searched_le (le : searched p (front ++ back) ≤ front.length) :
    front.any p = true ∨ back = [] := by
  by_cases found : front.any p = true
  · exact .inl found
  · right
    have outside : front.findIdx p = front.length := by
      refine List.findIdx_eq_length_of_false fun x listed => ?_
      cases holds : p x with
      | false => rfl
      | true => exact absurd (List.any_eq_true.2 ⟨x, listed, holds⟩) found
    rw [searched, List.findIdx_append, if_neg (by omega), List.length_append] at le
    rw [← List.length_eq_zero_iff]
    omega

/-- A search finds something if some entry has it. -/
theorem isSome_findSome? {B : Type} (f : A → Option B) (xs : List A) :
    (xs.findSome? f).isSome = xs.any fun x => (f x).isSome := by
  rw [Bool.eq_iff_iff, List.any_eq_true, List.findSome?_isSome_iff]

/-- What is found in front is found in the whole. -/
theorem findSome?_append_of_any {B : Type} {f : A → Option B}
    (found : front.any (fun x => (f x).isSome) = true) :
    (front ++ back).findSome? f = front.findSome? f := by
  rw [← isSome_findSome?] at found
  rw [List.findSome?_append, Option.or_of_isSome found]

theorem any_append_of_any (found : front.any p = true) : (front ++ back).any p = front.any p := by
  rw [List.any_append, found, Bool.true_or]

end Search

end ConfigTree

end BeanWiring
