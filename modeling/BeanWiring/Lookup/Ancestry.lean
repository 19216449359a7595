/-
# Ancestry

Following the parents of a bean through a look-up context: its class, its ancestors,
and its definition with everything inherited.

A class is searched along parent *names*, each followed once; ancestors are collected
by *identity*, each bean at most once.  Both walks are bounded by the number of beans
in the context.

Main statements: `merged_of_not_isChild` and `merged_eq_override`, what a merged
definition is made of.
-/
import BeanWiring.Definition.Override
import BeanWiring.Lookup.Context

namespace BeanWiring

/-! ## The class of a bean -/

/-- The first class declared along parent names, and the names looked up on the way.  A
name already followed ends the search without a class. -/
def classAlong (ctx : Context) : (fuel : Nat) → (followed : List String) →
    (parent : Option String) → Option String × List String
  | 0, _, _ => (none, [])
  | _ + 1, _, none => (none, [])
  | fuel + 1, followed, some name =>
    if name ∈ followed then
      (none, [])
    else
      match ctx.resolve? name with
      | none => (none, [name])
      | some b =>
        match b.className with
        | some className => (some className, [name])
        | none =>
          let (className, asked) := classAlong ctx fuel (name :: followed) b.parent
          (className, name :: asked)

/-- The class of a bean with the names looked up for it: its own, or that of the nearest
ancestor that declares one. -/
def searchClass (ctx : Context) (b : Bean) : Option String × List String :=
  match b.className with
  | some className => (some className, [])
  | none => classAlong ctx (ctx.allBeans.length + 2) [b.name] b.parent

/-- The class of a bean. -/
def beanClass (ctx : Context) (b : Bean) : Option String :=
  (searchClass ctx b).1

/-! ## Ancestors -/

/-- Ancestors along parent names.  The walk ends at a missing parent, at a parent named as
the bean itself was, and at a bean met before. -/
def ancestorsFrom (ctx : Context) : (fuel : Nat) → (met : List BeanId) → (current : String) →
    (parent : Option String) → List Bean
  | 0, _, _, _ => []
  | _ + 1, _, _, none => []
  | fuel + 1, met, current, some name =>
    if name = current then
      []
    else
      match ctx.resolve? name with
      | none => []
      | some b => if b.id ∈ met then [] else b :: ancestorsFrom ctx fuel (b.id :: met) name b.parent

/-- The ancestors of a bean, nearest first. -/
def ancestors (ctx : Context) (b : Bean) : List Bean :=
  ancestorsFrom ctx (ctx.allBeans.length + 1) [b.id] b.name b.parent

/-- The names that are looked up to collect the ancestors of a bean. -/
def ancestorsAsked (ctx : Context) (b : Bean) : List String :=
  if b.parent = some b.name then [] else (b :: ancestors ctx b).filterMap Bean.parent

/-! ## Inheritance -/

/-- The last of a list of ancestors, if it has no parent itself. -/
def rootOf? (chain : List Bean) : Option Bean :=
  chain.getLast?.filter (!·.isChild)

/-- The definition of a bean with everything inherited: that of the root, overridden by each
descendant in turn.  Where the chain does not end at a root, nothing is inherited. -/
def merged (ctx : Context) (b : Bean) : Definition (Value Declaration) :=
  let chain := ancestors ctx b
  match rootOf? chain with
  | none => b.definition
  | some root =>
    ((chain.dropLast.reverse ++ [b]).map Bean.definition).foldl Definition.overrideWith
      root.definition

theorem merged_of_not_isChild {ctx : Context} {b : Bean} (h : b.isChild = false) :
    merged ctx b = b.definition := by
  have hp : b.parent = none := by
    simpa [Bean.isChild, Definition.isChild, Bean.parent] using h
  simp [merged, ancestors, hp, ancestorsFrom, rootOf?]

/-- Where the chain ends at a root, the bean's own definition is laid over all others. -/
theorem merged_eq_override {ctx : Context} {b root : Bean}
    (h : rootOf? (ancestors ctx b) = some root) :
    merged ctx b
      = (((ancestors ctx b).dropLast.reverse.map Bean.definition).foldl Definition.overrideWith
          root.definition).overrideWith b.definition := by
  simp [merged, h]

/-! ## Remembered definitions -/

/-- Merged definitions already made, by the identity of the bean. -/
structure MergeCache where
  entries : List (BeanId × Definition (Value Declaration)) := []

namespace MergeCache

/-- Number of remembered definitions. -/
def size (cache : MergeCache) : Nat := cache.entries.length

/-- Whether nothing is remembered. -/
def isEmpty (cache : MergeCache) : Bool := cache.entries.isEmpty

/-- Whether the definition of a bean is remembered. -/
def knows (cache : MergeCache) (b : Bean) : Bool :=
  (cache.entries.lookup b.id).isSome

/-- The merged definition of a bean, remembered from now on. -/
def merged (cache : MergeCache) (ctx : Context) (b : Bean) :
    Definition (Value Declaration) × MergeCache :=
  match cache.entries.lookup b.id with
  | some definition => (definition, cache)
  | none =>
    let definition := BeanWiring.merged ctx b
    (definition, ⟨cache.entries ++ [(b.id, definition)]⟩)

end MergeCache

end BeanWiring
