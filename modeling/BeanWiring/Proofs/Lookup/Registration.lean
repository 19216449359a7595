/-
# Names in a registry

A registry that everything a list of contexts declares is registered in, next to a context
that merges the beans and the aliases of the same contexts.  Both keep the same beans.  The
registry also takes in the names that beans list for themselves, which the other context
knows nothing of, and it refuses an alias that repeats the name of its bean.

Main statements:

* `registerAll_foldl` : what a registry holds once contexts have been registered in it;
* `comparesTo_of_tables` : exactly which names both resolve alike, and which only the registry
  resolves.
-/
import Mathlib.Data.List.Basic
import BeanWiring.Proofs.Config.Merging
import BeanWiring.Proofs.Keyed
import BeanWiring.Registry

namespace BeanWiring

/-! ## Aliases -/

/-- The bean name that an alias of the name leads to. -/
def target? (aliases : List BeanAlias) (name : String) : Option String :=
  (Keyed.get? BeanAlias.name name aliases).map BeanAlias.beanName

namespace Context

/-- All aliases that a context declares: those that its beans list for themselves, and then
those declared on their own. -/
def declaredAliases (ctx : Context) : List BeanAlias :=
  ctx.beans.flatMap Registry.ownAliases ++ ctx.aliases

/-- A name stands for a bean, or for the one that its alias leads to, or for a bean of a
component. -/
theorem resolve?_eq_target? (ctx : Context) (name : String) :
    ctx.resolve? name = ((ctx.bean? name).or ((target? ctx.aliases name).bind ctx.bean?)).or
      (findInComponents? name ctx.components) := by
  rw [resolve?, target?, Option.bind_map]
  rfl

end Context

namespace Registry

/-- Writes an alias, unless it repeats the name of its bean, or is taken and may not be
overridden. -/
def addAlias (allowed : Bool) (aliases : List BeanAlias) (a : BeanAlias) : List BeanAlias :=
  if a.name = a.beanName then
    aliases
  else
    match Keyed.get? BeanAlias.name a.name aliases with
    | some existing =>
      if existing.beanName = a.beanName then aliases
      else if allowed then Keyed.put BeanAlias.name a aliases
      else aliases
    | none => Keyed.put BeanAlias.name a aliases

/-- Whether an alias has another name than its bean. -/
def isProper (a : BeanAlias) : Bool := a.name ≠ a.beanName

/-- Adding an alias leaves the table alone, as it is improper or its name is taken, or writes it;
where nothing may be overridden, it is only written under a new name. -/
theorem addAlias_cases (allowed : Bool) (aliases : List BeanAlias) (a : BeanAlias) :
    (addAlias allowed aliases a = aliases ∧
        (isProper a = true → a.name ∈ aliases.map BeanAlias.name)) ∨
      (addAlias allowed aliases a = Keyed.put BeanAlias.name a aliases ∧ isProper a = true ∧
        (allowed = false → Keyed.get? BeanAlias.name a.name aliases = none)) := by
  unfold addAlias
  by_cases own : a.name = a.beanName
  · rw [if_pos own]
    exact .inl ⟨rfl, fun proper => by simp [isProper, own] at proper⟩
  · rw [if_neg own]
    have proper : isProper a = true := by simpa [isProper] using own
    cases found : Keyed.get? BeanAlias.name a.name aliases with
    | none => exact .inr ⟨rfl, proper, fun _ => rfl⟩
    | some existing =>
      have taken : a.name ∈ aliases.map BeanAlias.name := by
        rw [← Keyed.has_iff_mem, Keyed.has_eq_isSome, found]
        rfl
      dsimp only
      by_cases repeated : existing.beanName = a.beanName
      · rw [if_pos repeated]
        exact .inl ⟨rfl, fun _ => taken⟩
      · rw [if_neg repeated]
        cases allowed with
        | false => exact .inl ⟨rfl, fun _ => taken⟩
        | true => exact .inr ⟨rfl, proper, nofun⟩

theorem target?_addAlias (allowed : Bool) (aliases : List BeanAlias) (a : BeanAlias)
    (name : String) :
    target? (addAlias allowed aliases a) name
      = if isProper a = true ∧ a.name = name then
          (if allowed then some a.beanName else (target? aliases name).or (some a.beanName))
        else target? aliases name := by
  have written : target? (Keyed.put BeanAlias.name a aliases) name
      = if a.name = name then some a.beanName else target? aliases name := by
    rw [target?, Keyed.get?_put]
    split <;> rfl
  unfold addAlias
  by_cases own : a.name = a.beanName
  · simp [own, isProper]
  · rw [if_neg own]
    have proper : isProper a = true := by simpa [isProper] using own
    -- Only the name of the alias itself can come to lead elsewhere.
    simp only [proper, true_and]
    by_cases same : a.name = name
    · subst same
      cases taken : Keyed.get? BeanAlias.name a.name aliases with
      | none => simp [target?, taken, Keyed.get?_put]
      | some existing =>
        by_cases repeated : existing.beanName = a.beanName
        · cases allowed <;> simp [target?, taken, repeated]
        · cases allowed <;> simp [target?, taken, repeated, Keyed.get?_put]
    · rw [if_neg same]
      rw [if_neg same] at written
      split
      · split
        · rfl
        · split
          · exact written
          · rfl
      · exact written

/-- After many aliases a name leads where the proper alias of it that counts leads. -/
theorem target?_foldl_addAlias (allowed : Bool) (aliases : List BeanAlias) (name : String) :
    target? (aliases.foldl (addAlias allowed) []) name
      = (Keyed.kept allowed BeanAlias.name name (aliases.filter isProper)).map
          BeanAlias.beanName := by
  -- The alias declared last decides, or leaves the decision to those before it.
  induction aliases using List.reverseRecOn with
  | nil => cases allowed <;> rfl
  | append_singleton aliases a ih =>
    rw [List.foldl_append, List.foldl_cons, List.foldl_nil, target?_addAlias, ih,
      List.filter_append]
    cases proper : isProper a with
    | false => simp [proper]
    | true =>
      rw [List.filter_cons_of_pos proper, List.filter_nil, Keyed.kept_concat]
      by_cases same : a.name = name
      · cases allowed <;> simp [same]
      · simp [same]

/-! ## Registering contexts -/

/-- Registering a bean is adding it to a table. -/
theorem orUnchanged_registerBean (r : Registry) (b : Bean) :
    r.orUnchanged (r.registerBean b)
      = { r with beans := MergedSet.addEntry Bean.name r.allowBeanOverriding r.beans b } := by
  unfold registerBean MergedSet.addEntry Keyed.putNew
  rw [Keyed.has_eq_isSome]
  cases found : Keyed.get? Bean.name b.name r.beans with
  | some existing =>
    by_cases allowed : r.allowBeanOverriding = true
    · simp only [if_pos allowed]
      rfl
    · simp only [if_neg allowed]
      rfl
  | none =>
    have new : Keyed.put Bean.name b r.beans = r.beans ++ [b] := Keyed.put_of_get?_none found
    rw [← new, Option.isSome_none, if_neg Bool.false_ne_true, ite_self]
    rfl

theorem orUnchanged_registerAlias (r : Registry) (a : BeanAlias) :
    r.orUnchanged (r.registerAlias a)
      = { r with aliases := addAlias r.allowAliasOverriding r.aliases a } := by
  unfold registerAlias addAlias
  by_cases own : a.name = a.beanName
  · rw [if_pos own, if_pos own]
    rfl
  · rw [if_neg own, if_neg own]
    cases Keyed.get? BeanAlias.name a.name r.aliases with
    | none => rfl
    | some existing =>
      dsimp only
      by_cases repeated : existing.beanName = a.beanName
      · rw [if_pos repeated, if_pos repeated]
        rfl
      · rw [if_neg repeated, if_neg repeated]
        by_cases allowed : r.allowAliasOverriding = true
        · rw [if_pos allowed, if_pos allowed]
          rfl
        · rw [if_neg allowed, if_neg allowed]
          rfl

theorem foldl_registerAlias (r : Registry) (aliases : List BeanAlias) :
    aliases.foldl (fun r a => r.orUnchanged (r.registerAlias a)) r
      = { r with aliases := aliases.foldl (addAlias r.allowAliasOverriding) r.aliases } := by
  induction aliases generalizing r with
  | nil => rfl
  | cons a aliases ih => rw [List.foldl_cons, ih, orUnchanged_registerAlias, List.foldl_cons]

theorem foldl_registerWithAliases (r : Registry) (beans : List Bean) :
    beans.foldl registerWithAliases r
      = { r with
          beans := beans.foldl (MergedSet.addEntry Bean.name r.allowBeanOverriding) r.beans
          aliases := (beans.flatMap ownAliases).foldl (addAlias r.allowAliasOverriding)
            r.aliases } := by
  induction beans generalizing r with
  | nil => rfl
  | cons b beans ih =>
    rw [List.foldl_cons, ih, registerWithAliases, orUnchanged_registerBean, foldl_registerAlias,
      List.foldl_cons, List.flatMap_cons, List.foldl_append]

theorem foldl_registerComponent (r : Registry) (components : List Component) :
    components.foldl registerComponent r = { r with components := r.components ++ components } := by
  induction components generalizing r with
  | nil => simp
  | cons c components ih => rw [List.foldl_cons, ih, registerComponent, List.append_assoc]; rfl

/-- A context is registered table by table. -/
theorem registerAll_eq (r : Registry) (ctx : Context) :
    r.registerAll ctx
      = { r with
          beans := ctx.beans.foldl (MergedSet.addEntry Bean.name r.allowBeanOverriding) r.beans
          aliases := ctx.declaredAliases.foldl (addAlias r.allowAliasOverriding) r.aliases
          components := r.components ++ ctx.components } := by
  rw [registerAll, foldl_registerWithAliases, foldl_registerAlias, foldl_registerComponent,
    Context.declaredAliases, List.foldl_append]

/-- Contexts registered one after the other leave what one context with all their beans,
aliases and components would leave. -/
theorem registerAll_foldl (r : Registry) (declared : List Context) :
    declared.foldl registerAll r
      = { r with
          beans := (declared.flatMap Context.beans).foldl
            (MergedSet.addEntry Bean.name r.allowBeanOverriding) r.beans
          aliases := (declared.flatMap Context.declaredAliases).foldl
            (addAlias r.allowAliasOverriding) r.aliases
          components := r.components ++ declared.flatMap Context.components } := by
  induction declared generalizing r with
  | nil => simp
  | cons ctx declared ih =>
    rw [List.foldl_cons, ih, registerAll_eq]
    simp only [List.flatMap_cons, List.foldl_append, List.append_assoc]

/-! ## Next to a merged context -/

/-- The bean that a name stands for by the one of some aliases that counts. -/
def byAlias? (allowed : Bool) (ctx : Context) (aliases : List BeanAlias) (name : String) :
    Option Bean :=
  (Keyed.kept allowed BeanAlias.name name aliases).bind fun a => ctx.bean? a.beanName

/-- All aliases that a registry may take from contexts. -/
def properAliases (declared : List Context) : List BeanAlias :=
  (declared.flatMap Context.declaredAliases).filter isProper

/-- How names resolve in a registry of everything that the contexts of `declared` declare, next
to a context with the same beans and with those aliases only that are declared on their own. -/
structure ComparesTo (allowed : Bool) (registry other : Context) (declared : List Context) :
    Prop where
  /-- The registry differs in its aliases: it has all that are proper, in order. -/
  whole : ∀ name, registry.resolve? name
    = ((other.bean? name).or (byAlias? allowed other (properAliases declared) name)).or
      (findInComponents? name other.components)
  /-- A name resolves alike exactly if it is that of a bean, or if its aliases of both kinds
  come to the same. -/
  agree_iff : ∀ name, registry.resolve? name = other.resolve? name ↔
    (other.bean? name = none →
      (byAlias? allowed other (properAliases declared) name).or
          (findInComponents? name other.components)
        = (byAlias? allowed other (declared.flatMap Context.aliases) name).or
          (findInComponents? name other.components))
  /-- A name resolves alike if no bean lists it for itself and no alias repeats it. -/
  plain : ∀ name, (∀ b ∈ declared.flatMap Context.beans, name ∉ b.aliases) →
    (∀ a ∈ declared.flatMap Context.aliases, a.name = name → a.beanName ≠ name) →
      registry.resolve? name = other.resolve? name
  /-- A name that only beans list for themselves leads to one of them in the registry, and
  nowhere in the other context. -/
  listed : ∀ b ∈ declared.flatMap Context.beans, ∀ name ∈ b.aliases,
    (∀ c ∈ declared.flatMap Context.beans, c.name ≠ name) →
    (∀ a ∈ declared.flatMap Context.aliases, a.name ≠ name) →
    (∀ c ∈ beansOfComponents (declared.flatMap Context.components), c.name ≠ name) →
      (∃ c, registry.resolve? name = some c ∧
        ∃ d ∈ declared.flatMap Context.beans, name ∈ d.aliases ∧ d.name = c.name) ∧
      other.resolve? name = none

section Compares

variable {declared : List Context} {name : String}

/-- Of the aliases of a name that no bean lists and no alias repeats, the proper ones are those
declared on their own. -/
theorem filter_declaredAliases
    (unlisted : ∀ b ∈ declared.flatMap Context.beans, name ∉ b.aliases)
    (proper : ∀ a ∈ declared.flatMap Context.aliases, a.name = name → a.beanName ≠ name) :
    (properAliases declared).filter (·.name = name)
      = (declared.flatMap Context.aliases).filter (·.name = name) := by
  simp only [properAliases, List.filter_flatMap]
  refine List.flatMap_congr ?_
  intro ctx there
  have own : (ctx.beans.flatMap ownAliases).filter (·.name = name) = [] := by
    rw [List.filter_eq_nil_iff]
    intro a ha named
    obtain ⟨b, hb, ofBean⟩ := List.mem_flatMap.1 ha
    obtain ⟨n, listed, rfl⟩ := List.mem_map.1 ofBean
    have same : n = name := by simpa using named
    exact unlisted b (List.mem_flatMap.2 ⟨ctx, there, hb⟩) (same ▸ listed)
  -- What is left is declared on its own, and all of it passes for proper.
  rw [List.filter_comm, Context.declaredAliases, List.filter_append, own, List.nil_append,
    List.filter_eq_self]
  intro a ha
  obtain ⟨standing, named⟩ := List.mem_filter.1 ha
  have named : a.name = name := by simpa using named
  have other := proper a (List.mem_flatMap.2 ⟨ctx, there, standing⟩) named
  simpa [isProper, named] using other.symm

/-- A proper alias of a name that is not declared on its own is listed by a bean. -/
theorem listed_of_mem_declaredAliases {a : BeanAlias}
    (there : a ∈ properAliases declared)
    (alone : ∀ c ∈ declared.flatMap Context.aliases, c.name ≠ a.name) :
    ∃ d ∈ declared.flatMap Context.beans, a.name ∈ d.aliases ∧ d.name = a.beanName := by
  obtain ⟨ctx, hctx, ha⟩ := List.mem_flatMap.1 (List.mem_filter.1 there).1
  rcases List.mem_append.1 ha with own | standing
  · obtain ⟨d, hd, ofBean⟩ := List.mem_flatMap.1 own
    obtain ⟨n, listed, rfl⟩ := List.mem_map.1 ofBean
    exact ⟨d, List.mem_flatMap.2 ⟨ctx, hctx, hd⟩, listed, rfl⟩
  · exact absurd rfl (alone a (List.mem_flatMap.2 ⟨ctx, hctx, standing⟩))

/-- A name that a bean lists for itself and that is no bean's own has a proper alias. -/
theorem exists_kept_of_listed (allowed : Bool) {b : Bean}
    (hb : b ∈ declared.flatMap Context.beans) (listed : name ∈ b.aliases) (other : b.name ≠ name) :
    ∃ a, Keyed.kept allowed BeanAlias.name name (properAliases declared) = some a := by
  obtain ⟨ctx, hctx, hb⟩ := List.mem_flatMap.1 hb
  refine Keyed.exists_kept (x := ⟨name, b.name, b.location⟩) allowed
    (List.mem_filter.2 ⟨?_, ?_⟩) rfl
  · refine List.mem_flatMap.2 ⟨ctx, hctx, List.mem_append_left _ ?_⟩
    exact List.mem_flatMap.2 ⟨b, hb, List.mem_map_of_mem listed⟩
  · simpa [isProper] using other.symm

/-- An empty registry in which contexts are registered, next to a context that holds the beans
and the standalone aliases that its policies keep. -/
theorem comparesTo_of_tables {r : Registry} {other : Context} (noBeans : r.beans = [])
    (noAliases : r.aliases = []) (noComponents : r.components = [])
    (beans : ∀ n, other.bean? n
      = Keyed.kept r.allowBeanOverriding Bean.name n (declared.flatMap Context.beans))
    (aliases : ∀ n, other.aliasOf? n
      = Keyed.kept r.allowAliasOverriding BeanAlias.name n (declared.flatMap Context.aliases))
    (components : other.components = declared.flatMap Context.components) :
    ComparesTo r.allowAliasOverriding (declared.foldl registerAll r).toContext other declared := by
  have whole : ∀ name, (declared.foldl registerAll r).toContext.resolve? name
      = ((other.bean? name).or
          (byAlias? r.allowAliasOverriding other (properAliases declared) name)).or
        (findInComponents? name other.components) := by
    intro name
    -- Beans and components are the same on both sides; what differs is the aliases.
    have sameBeans : (declared.foldl registerAll r).toContext.bean? = other.bean? := by
      funext n
      rw [beans, registerAll_foldl, noBeans]
      exact Keyed.get?_foldl_addEntry _ _ _ _
    have sameComponents : (declared.foldl registerAll r).toContext.components
        = other.components := by
      rw [components, registerAll_foldl, noComponents]
      rfl
    have target : target? (declared.foldl registerAll r).toContext.aliases name
        = (Keyed.kept r.allowAliasOverriding BeanAlias.name name (properAliases declared)).map
            BeanAlias.beanName := by
      rw [registerAll_foldl, noAliases]
      exact target?_foldl_addAlias _ _ _
    rw [Context.resolve?_eq_target?, sameBeans, sameComponents, target, Option.bind_map]
    rfl
  have resolved : ∀ name, other.resolve? name
      = ((other.bean? name).or (byAlias? r.allowAliasOverriding other
          (declared.flatMap Context.aliases) name)).or
        (findInComponents? name other.components) := by
    intro name
    rw [byAlias?, ← aliases]
    rfl
  refine ⟨whole, ?_, ?_, ?_⟩
  · intro name
    rw [whole, resolved]
    cases other.bean? name <;> simp
  · intro name unlisted proper
    rw [whole, resolved, byAlias?, Keyed.kept_congr (filter_declaredAliases unlisted proper)]
    rfl
  · intro b hb name listed noBean noAlias noComponent
    have own : other.bean? name = none := by
      rw [beans, Option.eq_none_iff_forall_ne_some]
      intro c found
      obtain ⟨there, named⟩ := Keyed.mem_of_kept found
      exact noBean c there named
    have component : findInComponents? name other.components = none := by
      rw [findInComponents?_eq_find?, components, List.find?_eq_none]
      intro c hc named
      exact noComponent c hc (by simpa using named)
    have standing : other.aliasOf? name = none := by
      rw [aliases, Option.eq_none_iff_forall_ne_some]
      intro a found
      obtain ⟨there, named⟩ := Keyed.mem_of_kept found
      exact noAlias a there named
    refine ⟨?_, by simp [Context.resolve?, own, standing, component]⟩
    obtain ⟨a, counts⟩ := exists_kept_of_listed r.allowAliasOverriding hb listed (noBean b hb)
    obtain ⟨there, named⟩ := Keyed.mem_of_kept counts
    obtain ⟨d, hd, lists, leads⟩ :=
      listed_of_mem_declaredAliases there (named ▸ noAlias)
    -- The bean that lists the name is kept under its own name, or another one in its place.
    obtain ⟨c, kept⟩ := Keyed.exists_kept r.allowBeanOverriding hd leads
    have found : other.bean? a.beanName = some c := by rw [beans, kept]
    refine ⟨c, ?_, d, hd, named ▸ lists, leads.trans (Keyed.mem_of_kept kept).2.symm⟩
    rw [whole, own, component, byAlias?, counts]
    simp [found]

end Compares

end Registry

end BeanWiring
