/-
# Config trees

A config with the configs that it imports, at any depth, all of them read.  Its beans,
aliases, components and problems are its own, followed by those of its imports from
first to last; a look-up by name asks the configs in this order.

Reading goes only as far as a query needs: `beanReach` and its like count the configs,
in this order, that a query asks.

Main statements: `bean?_eq_find?` and `aliasOf?_eq_find?`, that a look-up finds the first
bean or alias of the name in the list of all.
-/
import BeanWiring.Config.Contents

namespace BeanWiring

/-- A config that has been read, with its imports. -/
structure ConfigTree where
  name : String
  contents : Contents ConfigTree

mutual

/-- The config and then those that it imports. -/
def ConfigTree.nodes : ConfigTree → List ConfigTree
  | ⟨name, ⟨beans, aliases, components, imports, problems, defaults, stamp⟩⟩ =>
    ⟨name, ⟨beans, aliases, components, imports, problems, defaults, stamp⟩⟩ ::
      nodesOfImports imports

/-- The configs that imports pulled in, each with those that it imports. -/
def nodesOfImports : List (Import ConfigTree) → List ConfigTree
  | [] => []
  | ⟨_, _, none⟩ :: rest => nodesOfImports rest
  | ⟨_, _, some t⟩ :: rest => t.nodes ++ nodesOfImports rest

end

namespace ConfigTree

/-! ## Queries -/

/-- All beans. -/
def beans (t : ConfigTree) : List Bean := t.nodes.flatMap (·.contents.beans)

/-- All aliases. -/
def aliases (t : ConfigTree) : List BeanAlias := t.nodes.flatMap (·.contents.aliases)

/-- All components. -/
def components (t : ConfigTree) : List Component := t.nodes.flatMap (·.contents.components)

/-- All problems. -/
def problems (t : ConfigTree) : List Diagnostic := t.nodes.flatMap (·.contents.problems)

/-- The bean of a name in the first config that has one. -/
def bean? (t : ConfigTree) (name : String) : Option Bean :=
  t.nodes.findSome? (·.contents.bean? name)

/-- The alias of a name in the first config that has one. -/
def aliasOf? (t : ConfigTree) (name : String) : Option BeanAlias :=
  t.nodes.findSome? (·.contents.aliasOf? name)

/-- Whether some config has beans of a class. -/
def hasClass (t : ConfigTree) (className : String) : Bool :=
  t.nodes.any (·.contents.classIndex.hasClass className)

/-- The beans of a class. -/
def beansOfClass (t : ConfigTree) (className : String) : List Bean :=
  t.nodes.flatMap (·.contents.classIndex.beansOf className)

/-- The classes that have beans, sorted, each once. -/
def classes (t : ConfigTree) : List String :=
  sortStrings (Keyed.distinct (t.nodes.flatMap (·.contents.classIndex.classes)))

/-- The config as a context in which names are looked up. -/
def toContext (t : ConfigTree) : Context :=
  ⟨t.name, .config, t.beans, t.aliases, t.components⟩

/-! ## How far queries read -/

/-- Number of configs. -/
def size (t : ConfigTree) : Nat := t.nodes.length

/-- Number of configs up to the first that satisfies `p`, or of all if none does. -/
def reachAmong (nodes : List ConfigTree) (p : Contents ConfigTree → Bool) : Nat :=
  min (nodes.findIdx (fun node => p node.contents) + 1) nodes.length

/-- How far a search for contents that satisfy `p` reads. -/
def reachOf (t : ConfigTree) (p : Contents ConfigTree → Bool) : Nat :=
  reachAmong t.nodes p

/-- How far a look-up of a bean by its own name reads. -/
def beanReach (t : ConfigTree) (name : String) : Nat :=
  t.reachOf fun c => (c.bean? name).isSome

/-- How far a look-up of an alias reads. -/
def aliasReach (t : ConfigTree) (name : String) : Nat :=
  t.reachOf fun c => (c.aliasOf? name).isSome

/-- How far a question for a class reads. -/
def classReach (t : ConfigTree) (className : String) : Nat :=
  t.reachOf fun c => c.classIndex.hasClass className

/-- How far look-ups of names read: where one is no bean, everything has been asked. -/
def resolveReach (t : ConfigTree) (names : List String) : Nat :=
  let nodes := t.nodes
  names.foldl (fun reach name => max reach (reachAmong nodes fun c => (c.bean? name).isSome)) 0

/-! ## Laws of look-up -/

theorem findSome?_find? {α β : Type} (f : α → List β) (p : β → Bool) (xs : List α) :
    xs.findSome? (fun x => (f x).find? p) = (xs.flatMap f).find? p := by
  induction xs with
  | nil => rfl
  | cons x xs ih =>
    rw [List.findSome?_cons, List.flatMap_cons, List.find?_append, ← ih]
    cases (f x).find? p <;> rfl

/-- A look-up finds the first bean of the name among all beans. -/
theorem bean?_eq_find? (t : ConfigTree) (name : String) :
    t.bean? name = t.beans.find? fun b => b.name = name :=
  findSome?_find? (fun node : ConfigTree => node.contents.beans) _ t.nodes

/-- A look-up finds the first alias of the name among all aliases. -/
theorem aliasOf?_eq_find? (t : ConfigTree) (name : String) :
    t.aliasOf? name = t.aliases.find? fun a => a.name = name :=
  findSome?_find? (fun node : ConfigTree => node.contents.aliases) _ t.nodes

/-- The context of a config answers as the config does. -/
theorem bean?_toContext (t : ConfigTree) (name : String) :
    t.toContext.bean? name = t.bean? name :=
  (t.bean?_eq_find? name).symm

theorem aliasOf?_toContext (t : ConfigTree) (name : String) :
    t.toContext.aliasOf? name = t.aliasOf? name :=
  (t.aliasOf?_eq_find? name).symm

end ConfigTree

end BeanWiring
