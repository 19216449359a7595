/-
# Consistent look-ups

Whatever beans and aliases are kept in, a look-up by name is to find the first entry of the name
among all of them, and a bean that some name stands for is to be found under its own name as well.
Walks along names rely on this: they tell beans apart by names and identities.

A registry is filled by registrations, some of which it refuses.  However it was filled, it has one
bean and one alias of a name at most, so the first entry of a name is the only one.

Main statements:

* `Context.isConsistent` : contexts are consistent;
* `Registry.Reached.distinct` : what registrations leave, names no two entries alike.
-/
import BeanWiring.Proofs.Lookup.Names
import BeanWiring.Proofs.Lookup.Registration

namespace BeanWiring

/-! ## Contexts -/

/-- Look-ups by name agree with lists of beans, aliases and components: a name stands for a bean,
for the target of an alias, or for a bean of a component, each the first of its name; and what a
name stands for, its own name stands for. -/
structure IsConsistent (beans : List Bean) (aliases : List BeanAlias) (components : List Component)
    (bean? : String → Option Bean) (aliasOf? : String → Option BeanAlias)
    (resolve? : String → Option Bean) : Prop where
  bean : ∀ name, bean? name = beans.find? (·.name = name)
  aliasOf : ∀ name, aliasOf? name = aliases.find? (·.name = name)
  resolve : ∀ name, resolve? name
    = ((bean? name).or ((aliasOf? name).bind fun a => bean? a.beanName)).or
      ((beansOfComponents components).find? (·.name = name))
  itself : ∀ name b, resolve? name = some b → resolve? b.name = some b

/-- Every context is consistent. -/
theorem Context.isConsistent (ctx : Context) :
    IsConsistent ctx.beans ctx.aliases ctx.components ctx.bean? ctx.aliasOf? ctx.resolve? where
  bean := fun _ => rfl
  aliasOf := fun _ => rfl
  resolve := by
    intro name
    rw [← findInComponents?_eq_find?]
    rfl
  itself := fun _ _ => resolve?_name

/-! ## Registries -/

namespace Registry

/-- A registration, which changes nothing if it is refused. -/
inductive Registers (r : Registry) : Registry → Prop
  | bean (b : Bean) : Registers r (r.orUnchanged (r.registerBean b))
  | aliasing (a : BeanAlias) : Registers r (r.orUnchanged (r.registerAlias a))
  | component (c : Component) : Registers r (r.registerComponent c)

/-- A registry that registrations have filled, from an empty one on. -/
inductive Reached : Registry → Prop
  | empty (name : String) (kind : ContextKind) (allowBeans allowAliases : Bool) :
      Reached ⟨name, kind, allowBeans, allowAliases, [], [], []⟩
  | registers {r s : Registry} (before : Reached r) (step : Registers r s) : Reached s

/-- No two entries of a registry have one name. -/
structure Distinct (r : Registry) : Prop where
  beans : (r.beans.map Bean.name).Nodup
  aliases : (r.aliases.map BeanAlias.name).Nodup

/-- Adding an alias keeps names distinct. -/
theorem nodup_addAlias {allowed : Bool} {aliases : List BeanAlias} (a : BeanAlias)
    (once : (aliases.map BeanAlias.name).Nodup) :
    ((addAlias allowed aliases a).map BeanAlias.name).Nodup := by
  rcases addAlias_cases allowed aliases a with ⟨same, -⟩ | ⟨written, -⟩
  · rw [same]
    exact once
  · rw [written]
    exact Keyed.nodup_put a once

/-- A registration keeps names distinct. -/
theorem Registers.distinct {r s : Registry} (step : Registers r s) (h : r.Distinct) :
    s.Distinct := by
  cases step with
  | bean b =>
    rw [orUnchanged_registerBean]
    exact ⟨Keyed.nodup_addEntry b h.beans, h.aliases⟩
  | aliasing a =>
    rw [orUnchanged_registerAlias]
    exact ⟨h.beans, nodup_addAlias a h.aliases⟩
  | component c => exact ⟨h.beans, h.aliases⟩

/-- However a registry was filled, it has one bean and one alias of a name at most. -/
theorem Reached.distinct {r : Registry} (reached : Reached r) : r.Distinct := by
  induction reached with
  | empty => exact ⟨List.nodup_nil, List.nodup_nil⟩
  | registers _ step ih => exact step.distinct ih

section Fill

variable {r : Registry}

theorem Reached.foldl_registerAlias (reached : Reached r) (aliases : List BeanAlias) :
    Reached (aliases.foldl (fun r a => r.orUnchanged (r.registerAlias a)) r) := by
  induction aliases generalizing r with
  | nil => exact reached
  | cons a rest ih => exact ih (reached.registers (.aliasing a))

theorem Reached.foldl_registerComponent (reached : Reached r) (components : List Component) :
    Reached (components.foldl registerComponent r) := by
  induction components generalizing r with
  | nil => exact reached
  | cons c rest ih => exact ih (reached.registers (.component c))

theorem Reached.registerWithAliases (reached : Reached r) (b : Bean) :
    Reached (r.registerWithAliases b) :=
  (reached.registers (.bean b)).foldl_registerAlias (ownAliases b)

/-- Registering a whole context is a sequence of registrations. -/
theorem Reached.registerAll (reached : Reached r) (ctx : Context) :
    Reached (r.registerAll ctx) := by
  have beans : Reached (ctx.beans.foldl Registry.registerWithAliases r) := by
    induction ctx.beans generalizing r with
    | nil => exact reached
    | cons b rest ih => exact ih (reached.registerWithAliases b)
  exact (beans.foldl_registerAlias ctx.aliases).foldl_registerComponent ctx.components

end Fill

/-- An alias of such a registry is what a look-up of its name finds. -/
theorem Distinct.aliasOf?_name {r : Registry} (h : r.Distinct) {a : BeanAlias}
    (there : a ∈ r.aliases) : r.toContext.aliasOf? a.name = some a :=
  Keyed.get?_key_of_mem h.aliases there

end Registry

end BeanWiring
