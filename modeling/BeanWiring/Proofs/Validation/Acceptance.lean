/-
# References that are accepted

A validation and a reference walk take the same names from the arguments and properties of a
bean, but they do not look them up alike.  The walk takes a name as it is.  The validation tries
a name with the factory mark once more without it, so that it accepts some names that the walk
leaves out.

Main statement: `accepted_references_iff`, which names are accepted, and when the direct
references of a bean have an edge to the bean that an accepted name stands for.
-/
import BeanWiring.Proofs.Reference.Members
import BeanWiring.Proofs.Validation.References

namespace BeanWiring

/-! ## Accepted names -/

/-- The bean that a validation takes a mentioned name for: what it stands for, or else what it
stands for without the factory mark. -/
def Context.referent? (ctx : Context) (name : String) : Option Bean :=
  (ctx.resolve? name).or
    (if isFactoryReference name then ctx.resolve? (stripFactoryMark name) else none)

/-- From one run to the other no diagnostic says that a reference leads nowhere. -/
def Run.Accepts (run run' : Run) : Prop :=
  run.Adds "UNDEFINED_REFERENCED_BEAN" (fun _ => False) run' ∧
    run.Adds "UNDEFINED_FACTORY_BEAN" (fun _ => False) run'

namespace Validator

open Check

section Accepted

variable (v : Validator) (b : Bean) (line : Nat) {name : String}

/-- A name is accepted exactly if it stands for a bean, if need be without its mark. -/
theorem accepts_checkReference_iff {name : String} (counts : v.ignores name = false)
    (run : Run) :
    run.Accepts ((v.checkReference b line name).run run).2 ↔
      ∃ t, run.registry.toContext.referent? name = some t := by
  have adds : ∀ code, code ∉ ["INVALID_REFERENCED_BEAN", "INVALID_FACTORY_BEAN"] →
      run.AddsOf code (v.Warns run.registry b line name)
        ((v.checkReference b line name).run run).2 := by
    intro code other
    refine (effect_checkReference v b ?_ line name run).2
    rintro line f found same
    exact other (Option.some.inj same ▸ found.code_mem)
  have unmarked := adds "UNDEFINED_REFERENCED_BEAN" (by decide)
  have marked := adds "UNDEFINED_FACTORY_BEAN" (by decide)
  rw [← Option.isSome_iff_exists, Context.referent?]
  constructor
  · rintro ⟨noReference, noFactory⟩
    by_contra missing
    simp only [Option.isSome_or, Bool.or_eq_true, not_or, Option.not_isSome_iff_eq_none] at missing
    obtain ⟨missing, missing'⟩ := missing
    cases mark : isFactoryReference name with
    | true =>
      rw [if_pos mark] at missing'
      exact (marked.iff noFactory (d := undefinedFactory b line name) rfl rfl).1
        (.marked ⟨counts, missing, mark, missing'⟩)
    | false =>
      exact (unmarked.iff noReference (d := undefinedReference b line name) rfl rfl).1
        (.unmarked ⟨counts, missing, mark⟩)
  · intro found
    have nothing : ∀ d, ¬v.Warns run.registry b line name d := by
      rintro d (⟨-, missing, mark⟩ | ⟨-, missing, mark, missing'⟩)
      · simp [missing, mark] at found
      · simp [missing, mark, missing'] at found
    exact ⟨unmarked.congr fun d _ => iff_of_false (nothing d) id,
      marked.congr fun d _ => iff_of_false (nothing d) id⟩

end Accepted

/-- **Accepted references.**  A name that is neither ignorable nor holds a placeholder is accepted
exactly if it stands for a bean, if need be without the factory mark.  If an argument or a property
mentions it, the direct references of the bean have an edge from there to the bean that it was
taken for exactly if the name stands for that bean with its mark, or if another name mentioned
there stands for the same bean. -/
theorem accepted_references_iff (v : Validator) (run : Run) (b : Bean) {name : String}
    (counts : v.ignores name = false) :
    (∀ line, run.Accepts ((v.checkReference b line name).run run).2 ↔
      ∃ t, run.registry.toContext.referent? name = some t) ∧
    ∀ m t, MemberMentions v.settings.rules run.registry.toContext b m name →
      run.registry.toContext.referent? name = some t →
      ((∃ e ∈ references v.settings.rules run.registry.toContext false (.bean b),
          e.source = b ∧ e.member = m ∧ e.target.id = t.id) ↔
        run.registry.toContext.resolve? name = some t ∨
          ∃ other t', other ≠ name ∧
            MemberMentions v.settings.rules run.registry.toContext b m other ∧
            run.registry.toContext.resolve? other = some t' ∧ t'.id = t.id) := by
  refine ⟨fun line => accepts_checkReference_iff v b line counts run, ?_⟩
  intro m t mentions taken
  have part : m ≠ .bean := by cases mentions <;> simp
  rw [exists_edge_iff part]
  constructor
  · rintro ⟨other, t', mentioned, found, same⟩
    by_cases own : other = name
    · subst own
      rw [Context.referent?, found, Option.some_or] at taken
      exact .inl (found.trans taken)
    · exact .inr ⟨other, t', own, mentioned, found, same⟩
  · rintro (found | ⟨other, t', -, mentioned, found, same⟩)
    · exact ⟨name, t, mentions, found, rfl⟩
    · exact ⟨other, t', mentioned, found, same⟩

/-! ### A marked name -/

/-- A bean that makes another object. -/
def connectionFactory : Bean :=
  .named "beans.xml"
    ⟨"factory", [], { className := some "Factory", location := .atLine "beans.xml" 1 }⟩

/-- A bean that asks for the factory itself. -/
def factoryClient : Bean :=
  .named "beans.xml"
    ⟨"client", [], { className := some "Foo"
                     properties := [⟨"target", .reference "&factory" false,
                       .atLine "beans.xml" 2⟩]
                     location := .atLine "beans.xml" 2 }⟩

/-- A registry with both beans. -/
def factoryRegistry : Registry :=
  { Registry.forConfig "beans.xml" with beans := [connectionFactory, factoryClient] }

/-- The marked name is accepted, as it leads to the factory, but it makes no edge. -/
theorem accepted_without_edge :
    ({ registry := factoryRegistry } : Run).Accepts
        ((({} : Validator).checkReference factoryClient 2 "&factory").run
          { registry := factoryRegistry }).2 ∧
      factoryRegistry.toContext.referent? "&factory" = some connectionFactory ∧
      ¬∃ e ∈ references [.proxy] factoryRegistry.toContext false (.bean factoryClient),
        e.source = factoryClient ∧ e.member = .property "target" ∧
          e.target.id = connectionFactory.id := by
  obtain ⟨accepts, edges⟩ := accepted_references_iff {} { registry := factoryRegistry }
    factoryClient (show ({} : Validator).ignores "&factory" = false by decide)
  have taken : factoryRegistry.toContext.referent? "&factory" = some connectionFactory := rfl
  have links : declaredLinks [.proxy] factoryRegistry.toContext factoryClient
      = [⟨.property "target", ⟨.standard, "&factory"⟩⟩] := rfl
  have part : Member.property "target" ≠ .bean := by decide
  have mentions : MemberMentions [.proxy] factoryRegistry.toContext factoryClient
      (.property "target") "&factory" := by
    rw [memberMentions_iff part, links]
    exact ⟨_, List.mem_singleton_self _, rfl, rfl⟩
  refine ⟨(accepts 2).2 ⟨_, taken⟩, taken, fun edge => ?_⟩
  rcases (edges _ _ mentions taken).1 edge with found | ⟨other, _, new, mentioned, -⟩
  · have never : none = some connectionFactory := found
    cases never
  · obtain ⟨l, declared, -, named⟩ := (memberMentions_iff part).1 mentioned
    have declared : l ∈ declaredLinks [.proxy] factoryRegistry.toContext factoryClient := declared
    rw [links, List.mem_singleton] at declared
    subst declared
    exact new named.symm

end Validator

end BeanWiring
