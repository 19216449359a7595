/-
# Class indexes

Which beans declare which class, by the name of the outermost class: `Outer$Inner`
counts as `Outer`.  Classes with placeholders are left out, and inner beans count like
all others.

Main statement: `beansOf_ofBeans`, that an index answers with exactly the beans of the
class, in order.
-/
import BeanWiring.Bean.Basic
import BeanWiring.Document.Store
import BeanWiring.Placeholder

namespace BeanWiring

/-- The name of a class without nested classes. -/
def normalizeClass (className : String) : String :=
  String.ofList (className.toList.takeWhile (· ≠ '$'))

/-- The class that a bean is listed under, if any. -/
def indexedClass? (b : Bean) : Option String :=
  (b.className.filter fun c => !hasPlaceholder c).map normalizeClass

/-- Beans by class. -/
structure ClassIndex where
  entries : List (String × List Bean) := []

namespace ClassIndex

/-- The beans of a class. -/
def beansOf (index : ClassIndex) (className : String) : List Bean :=
  match Keyed.get? Prod.fst className index.entries with
  | some entry => entry.2
  | none => []

/-- Whether a class has beans. -/
def hasClass (index : ClassIndex) (className : String) : Bool :=
  Keyed.has Prod.fst className index.entries

/-- The classes that have beans. -/
def classes (index : ClassIndex) : List String :=
  index.entries.map Prod.fst

/-- Adds beans at the end of those of a class. -/
def extend (index : ClassIndex) (className : String) (beans : List Bean) : ClassIndex :=
  ⟨Keyed.put Prod.fst (className, index.beansOf className ++ beans) index.entries⟩

/-- Adds a bean under its class. -/
def add (index : ClassIndex) (b : Bean) : ClassIndex :=
  match indexedClass? b with
  | some className => index.extend className [b]
  | none => index

/-- The index of a list of beans, each followed by the beans nested in it. -/
def ofBeans (beans : List Bean) : ClassIndex :=
  (beans.flatMap fun b => b :: b.innerDeep).foldl add {}

theorem beansOf_extend (index : ClassIndex) (className other : String) (beans : List Bean) :
    (index.extend className beans).beansOf other
      = if className = other then index.beansOf className ++ beans else index.beansOf other := by
  by_cases h : className = other <;> simp [extend, beansOf, Keyed.get?_put, h]

theorem beansOf_add (index : ClassIndex) (b : Bean) (className : String) :
    (index.add b).beansOf className
      = index.beansOf className ++ if indexedClass? b = some className then [b] else [] := by
  unfold add
  cases h : indexedClass? b with
  | none => simp
  | some c =>
    rw [beansOf_extend]
    by_cases hc : c = className <;> simp [hc]

/-- The beans listed under a class are those that declare it, in order. -/
theorem beansOf_ofBeans (beans : List Bean) (className : String) :
    (ofBeans beans).beansOf className
      = (beans.flatMap fun b => b :: b.innerDeep).filter
          fun b => indexedClass? b = some className := by
  have step : ∀ (bs : List Bean) (index : ClassIndex),
      (bs.foldl add index).beansOf className
        = index.beansOf className ++ bs.filter fun b => indexedClass? b = some className := by
    intro bs
    induction bs with
    | nil => simp
    | cons b bs ih =>
      intro index
      rw [List.foldl_cons, ih, beansOf_add, List.filter_cons]
      by_cases h : indexedClass? b = some className <;> simp [h]
  rw [ofBeans, step]
  simp [beansOf, Keyed.get?]

end ClassIndex

end BeanWiring
