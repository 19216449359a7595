/-
# Aliases and their targets

An alias is looked up in one step: its name stands for the bean whose own name is the target.  A
target that is itself an alias, or the name of a bean in a component, is not followed.  The check of
aliases looks the target up like any other name, and so it accepts such an alias; a reference to the
alias leads nowhere all the same, and is reported.

Main statements:

* `Context.resolve?_alias_iff` : when an alias stands for what its target stands for;
* `mem_undefinedTarget_iff`, `mem_undefinedReference_iff` : which warnings a pass adds;
* `aliases_iff` : aliases that are accepted, and references to them that are reported.
-/
import BeanWiring.Proofs.Validation.Agreement

namespace BeanWiring

/-! ## Names that only aliases have -/

namespace Context

variable {ctx : Context} {a : BeanAlias}

/-- Neither a bean nor a bean of a component has the name. -/
structure IsFree (ctx : Context) (name : String) : Prop where
  bean : ctx.bean? name = none
  component : findInComponents? name ctx.components = none

/-- Such a name stands for the bean whose own name is the target of its first alias. -/
theorem IsFree.resolve? {name : String} (free : ctx.IsFree name) :
    ctx.resolve? name = (ctx.aliasOf? name).bind fun a => ctx.bean? a.beanName := by
  rw [Context.resolve?, free.bean, free.component, Option.none_or, Option.or_none]

/-- The name of an alias has a first alias. -/
theorem exists_first (there : a ∈ ctx.aliases) :
    ∃ first ∈ ctx.aliases, first.name = a.name ∧ ctx.aliasOf? a.name = some first := by
  obtain ⟨first, found⟩ :
      ∃ first, Keyed.kept false BeanAlias.name a.name ctx.aliases = some first :=
    Keyed.exists_kept false there rfl
  obtain ⟨listed, named⟩ := Keyed.mem_of_kept found
  exact ⟨first, listed, named, Keyed.kept_false.symm.trans found⟩

/-- The first alias of a name stands for what its target stands for, unless the target is found as
an alias or in a component only. -/
theorem resolve?_alias_iff (free : ctx.IsFree a.name) (first : ctx.aliasOf? a.name = some a) :
    ctx.resolve? a.name = ctx.resolve? a.beanName ↔
      (∃ b, ctx.bean? a.beanName = some b) ∨ ctx.resolve? a.beanName = none := by
  rw [free.resolve?, first, Option.bind_some]
  cases target : ctx.bean? a.beanName with
  | some b => simp [resolve?_of_bean? target]
  | none => simp [eq_comm]

end Context

/-! ## Warnings of a pass -/

namespace Validator

section Emitted

variable {v : Validator} {config : Context} {interrupt : Interrupt} {set : Option SetView}
  {run run' : Run} {emitted : List Diagnostic}
  (done : v.pass interrupt config set run = .ok run')
  (appended : run'.diagnostics.toList = run.diagnostics.toList ++ emitted)
include done appended

/-- A pass that checks references warns of an alias of the config exactly if the target is looked
up and not found. -/
theorem mem_undefinedTarget_iff {a : BeanAlias} (declared : a ∈ config.aliases) :
    undefinedTarget a ∈ emitted ↔
      checksReferences set = true ∧ v.MissesTarget run'.registry a := by
  have added := (pass_ok (by decide)
    (fun set refused => performs_aliasTargets v set refused config) done).2
  have reported := added.mem_iff appended (d := undefinedTarget a) rfl
  refine reported.trans (and_congr_right fun _ => ?_)
  constructor
  · rintro ⟨a', -, misses, same⟩
    -- The two aliases may differ in other respects, but not in what they are for.
    have target : a.beanName = a'.beanName := Option.some.inj (congrArg Diagnostic.bean same)
    exact ⟨target ▸ misses.counts, target ▸ misses.missing⟩
  · exact fun misses => ⟨a, declared, misses, rfl⟩

/-- And it warns of a name that a checked bean mentions exactly if the name is missing. -/
theorem mem_undefinedReference_iff {x : Bean} {line : Nat} {name : String}
    (checks : v.Checks config run'.unregistered x)
    (mentions : v.Mentions run'.registry x line name) :
    undefinedReference x line name ∈ emitted ↔
      checksReferences set = true ∧ v.Misses run'.registry name := by
  have added := (pass_ok (by decide)
    (fun set refused => performs_referenceTasks v set refused config) done).2
  have reported := added.mem_iff appended (d := undefinedReference x line name) rfl
  refine reported.trans (and_congr_right fun _ => ?_)
  constructor
  · rintro ⟨x', line', name', -, -, misses, same⟩
    have named := congrArg Diagnostic.subject? same
    have reported : ∀ b l n, (undefinedReference b l n).subject? = some n := fun b l n =>
      subject?_toDiagnostic_bean b l (.referenceNotFound n)
    rw [reported, reported] at named
    exact Option.some.inj named ▸ misses
  · exact fun misses => ⟨x, line, name, checks, mentions, misses, rfl⟩

end Emitted

/-- **Aliases.**  In every context, the name of an alias that no bean has for its own, not even in
a component, stands for the bean whose own name is the target of the first alias of the name.  That
is what the target stands for exactly if the target is the own name of a bean, or stands for
nothing.  A pass that is never
cancelled comes to its end, and every pass that checks references accepts an alias of the config
exactly if the target is ignored or stands for something; a reference to an alias that the registry
has is reported exactly if it counts and no bean has the target for its own name. -/
theorem aliases_iff (v : Validator) :
    (∀ (ctx : Context), ∀ a ∈ ctx.aliases, ctx.IsFree a.name →
      ∃ first ∈ ctx.aliases, first.name = a.name ∧ ctx.aliasOf? a.name = some first ∧
        ctx.resolve? a.name = ctx.bean? first.beanName ∧
        (first = a → (ctx.resolve? a.name = ctx.resolve? a.beanName ↔
          (∃ b, ctx.bean? a.beanName = some b) ∨ ctx.resolve? a.beanName = none))) ∧
    ∀ (config : Context) (set : Option SetView) (run : Run),
      (∃ run', v.pass (fun _ _ => false) config set run = .ok run') ∧
      ∀ (interrupt : Interrupt) (run' : Run), v.pass interrupt config set run = .ok run' →
        ∃ emitted, run'.diagnostics.toList = run.diagnostics.toList ++ emitted ∧
          (checksReferences set = true → ∀ a ∈ config.aliases,
            (undefinedTarget a ∉ emitted ↔ v.ignores a.beanName = true ∨
              ∃ b, run'.registry.toContext.resolve? a.beanName = some b)) ∧
          (checksReferences set = true → ∀ a ∈ run'.registry.aliases,
            run'.registry.toContext.IsFree a.name → ∀ x line,
              v.Checks config run'.unregistered x → v.Mentions run'.registry x line a.name →
                (undefinedReference x line a.name ∈ emitted ↔
                  v.ignores a.name = false ∧ isFactoryReference a.name = false ∧
                    run'.registry.toContext.bean? a.beanName = none)) := by
  constructor
  · intro ctx a there free
    obtain ⟨first, listed, named, found⟩ := Context.exists_first there
    refine ⟨first, listed, named, found, ?_, ?_⟩
    · rw [free.resolve?, found, Option.bind_some]
    · rintro rfl
      exact Context.resolve?_alias_iff free found
  · intro config set run
    refine ⟨pass_completes v config set run, ?_⟩
    intro interrupt run' done
    obtain ⟨-, emitted, appended, -⟩ := pass_ok (by decide)
      (fun set refused => performs_aliasTargets v set refused config) done
    refine ⟨emitted, appended, ?_, ?_⟩
    · intro checks a declared
      rw [mem_undefinedTarget_iff done appended declared, checks]
      constructor
      · intro accepted
        by_contra neither
        rw [not_or, Bool.not_eq_true, not_exists, ← Option.eq_none_iff_forall_ne_some] at neither
        exact accepted ⟨rfl, neither.1, neither.2⟩
      · rintro (ignored | ⟨b, found⟩) ⟨-, misses⟩
        · exact absurd ignored (by simp [misses.counts])
        · exact absurd found (by simp [misses.missing])
    · intro checks a registered free x line checked mentions
      have found := (reached_of_pass done).distinct.aliasOf?_name registered
      have resolved := free.resolve?
      rw [found, Option.bind_some] at resolved
      rw [mem_undefinedReference_iff done appended checked mentions, checks, ← resolved]
      constructor
      · rintro ⟨-, misses⟩
        exact ⟨misses.counts, misses.unmarked, misses.missing⟩
      · rintro ⟨counts, unmarked, missing⟩
        exact ⟨rfl, counts, missing, unmarked⟩

/-! ### An alias of an alias -/

namespace Chain

/-- A bean. -/
def target : Bean :=
  .named "beans.xml"
    ⟨"target", [], { className := some "Foo", location := .atLine "beans.xml" 1 }⟩

/-- A bean that refers to `second`, at line 4. -/
def client : Bean :=
  .named "beans.xml"
    ⟨"client", [], { className := some "Foo"
                     properties := [⟨"p", .reference "second" false, .atLine "beans.xml" 4⟩]
                     location := .atLine "beans.xml" 4 }⟩

/-- An alias of the first bean. -/
def first : BeanAlias := ⟨"first", "target", .atLine "beans.xml" 2⟩

/-- An alias of that alias. -/
def second : BeanAlias := ⟨"second", "first", .atLine "beans.xml" 3⟩

/-- A config with all of them. -/
def config : Context :=
  { name := "beans.xml", kind := .config, beans := [target, client], aliases := [first, second] }

/-- The alias of the alias stands for nothing, though its target stands for the bean.  It is
accepted, and the reference to it is reported. -/
theorem second_accepted_and_reported :
    config.resolve? "second" ≠ config.resolve? "first" ∧
      ∃ run', ({} : Validator).pass (fun _ _ => false) config none {} = .ok run' ∧
        undefinedTarget second ∉ run'.diagnostics.toList ∧
        undefinedReference client 4 "second" ∈ run'.diagnostics.toList := by
  obtain ⟨contexts, passes⟩ := aliases_iff {}
  have there : second ∈ config.aliases := by decide
  constructor
  · obtain ⟨first', -, -, found, -, same⟩ := contexts config second there ⟨rfl, rfl⟩
    have itself : first' = second := (Option.some.inj found).symm
    intro equal
    rcases (same itself).1 equal with ⟨b, own⟩ | missing
    · have nothing : none = some b := own
      cases nothing
    · have something : some target = none := missing
      cases something
  · obtain ⟨⟨run', done⟩, all⟩ := passes config none {}
    obtain ⟨emitted, appended, accepted, reported⟩ := all _ run' done
    have registry : run'.registry = (finalRoll {} config none).registry := registry_of_pass done
    have refused : run'.unregistered = [] := unregistered_of_pass done
    have exactly : run'.diagnostics.toList = emitted := appended
    refine ⟨run', done, ?_⟩
    rw [exactly]
    refine ⟨(accepted rfl second there).2 (.inr ⟨target, ?_⟩), ?_⟩
    · rw [registry]
      rfl
    · refine (reported rfl second ?_ ?_ client 4 ?_ ?_).2 ⟨by decide, by decide, ?_⟩
      · rw [registry]
        decide
      · rw [registry]
        exact ⟨rfl, rfl⟩
      · exact .own (.tail _ (.head _)) (by simp [refused]) (by decide)
      · exact .property (List.mem_singleton_self _) rfl (List.mem_singleton_self _)
      · rw [registry]
        rfl

end Chain

end Validator

end BeanWiring
