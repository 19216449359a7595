/-
# Names and identities

In a context whose beans are kept under their own names, a bean that some name leads to is
also found by its own name, and its identity tells it apart from every other such bean.

Components are searched one inside the other, up to the first hit; they are listed all through.
Both go in the same order, so that a hit is the first bean of the name in the list.

Main statements:

* `resolve?_name` : whatever name led to a bean, its own name leads there too;
* `IsNamed.eq_of_id` : beans that names lead to are equal if their identities are;
* `components_findFirst` : what is found in components is the first of its name among all beans.
-/
import BeanWiring.Lookup.Context

namespace BeanWiring.Context

variable {ctx : Context} {b c : Bean}

/-- Some name leads to the bean. -/
def Finds (ctx : Context) (b : Bean) : Prop :=
  ∃ name, ctx.resolve? name = some b

/-- Every bean of the context, those of components included, is identified by its name. -/
def IsNamed (ctx : Context) : Prop :=
  ∀ b ∈ ctx.allBeans, ∃ resource, b.id = .named resource b.name

/-- A bean found by name among the beans of the context has that name. -/
theorem name_of_bean? {name : String} (found : ctx.bean? name = some b) : b.name = name := by
  simpa using List.find?_some found

theorem Finds.mem_allBeans (found : ctx.Finds b) : b ∈ ctx.allBeans := by
  obtain ⟨name, found⟩ := found
  exact resolve?_mem found

theorem resolve?_of_bean? {name : String} (found : ctx.bean? name = some b) :
    ctx.resolve? name = some b := by
  rw [resolve?, found]
  rfl

/-- Whatever name led to a bean, its own name leads there too. -/
theorem resolve?_name {name : String} (found : ctx.resolve? name = some b) :
    ctx.resolve? b.name = some b := by
  have places := found
  rw [resolve?] at places
  rcases Option.or_eq_some_iff.1 places with direct | ⟨-, component⟩
  · rcases Option.or_eq_some_iff.1 direct with own | ⟨-, aliased⟩
    · rw [name_of_bean? own]
      exact found
    · -- The target of an alias is looked up by its own name.
      obtain ⟨a, -, target⟩ := Option.bind_eq_some_iff.1 aliased
      exact resolve?_of_bean? (name_of_bean? target ▸ target)
  · rw [findInComponents?_eq_find?] at component
    have named : b.name = name := by simpa using List.find?_some component
    rw [named]
    exact found

/-- Beans that names lead to are equal if their identities are. -/
theorem IsNamed.eq_of_id (named : ctx.IsNamed) (findsB : ctx.Finds b) (findsC : ctx.Finds c)
    (same : b.id = c.id) : b = c := by
  obtain ⟨r, idB⟩ := named b findsB.mem_allBeans
  obtain ⟨s, idC⟩ := named c findsC.mem_allBeans
  have names : b.name = c.name := by
    rw [idB, idC] at same
    exact (BeanId.named.inj same).2
  obtain ⟨_, foundB⟩ := findsB
  obtain ⟨_, foundC⟩ := findsC
  have ownB := resolve?_name foundB
  have ownC := resolve?_name foundC
  rw [names] at ownB
  exact Option.some.inj (ownB.symm.trans ownC)

/-! ## Beans of components -/

/-- The first bean of a name in a list, if there is one. -/
def IsFirst (name : String) (beans : List Bean) : Option Bean → Prop
  | some b =>
    ∃ front back, beans = front ++ b :: back ∧ b.name = name ∧ ∀ x ∈ front, x.name ≠ name
  | none => ∀ x ∈ beans, x.name ≠ name

theorem isFirst_find? (name : String) (beans : List Bean) :
    IsFirst name beans (beans.find? (·.name = name)) := by
  cases found : beans.find? (·.name = name) with
  | none =>
    have others : ∀ x ∈ beans, x.name ≠ name := by simpa using found
    exact others
  | some b =>
    obtain ⟨named, front, back, split, others⟩ := List.find?_eq_some_iff_append.1 found
    exact ⟨front, back, split, by simpa using named, by simpa using others⟩

/-- **Components.**  The bean that is found in a component is the first of its name among all beans
of the component, and none is found only if none has the name.  In a context, a name that stands for
no bean and no alias stands for the first bean of the name among those of all components. -/
theorem components_findFirst (name : String) :
    (∀ c : Component, IsFirst name c.allBeans (c.findBean? name)) ∧
    ∀ ctx : Context, ∃ hit, IsFirst name (ctx.components.flatMap Component.allBeans) hit ∧
      ctx.resolve? name =
        ((ctx.bean? name).or ((ctx.aliasOf? name).bind fun a => ctx.bean? a.beanName)).or hit := by
  constructor
  · intro c
    rw [c.findBean?_eq_find?]
    exact isFirst_find? name c.allBeans
  · intro ctx
    refine ⟨findInComponents? name ctx.components, ?_, rfl⟩
    rw [findInComponents?_eq_find?, beansOfComponents_eq_flatMap]
    exact isFirst_find? name _

end BeanWiring.Context
