/-
# Undefined references

A pass warns of a name exactly where a bean that it checks mentions the name in an argument
or a property, and the registry that the pass ends with has nothing of that name.  No broken
reference is overlooked, and no warning is without a cause.

Main statement: `undefinedReferences_iff`.
-/
import BeanWiring.Proofs.Validation.Passes
import BeanWiring.Proofs.Validation.References

namespace BeanWiring.Validator

/-- **Undefined references.**  A pass that is not cancelled comes to its end, and at its end
every pass has added to the diagnostics.  Among those added, the warnings of undefined
references are exactly the ones of names that are mentioned and missing; a pass within an
incomplete set adds none. -/
theorem undefinedReferences_iff (v : Validator) (config : Context) (set : Option SetView)
    (run : Run) :
    (∃ run', v.pass (fun _ _ => false) config set run = .ok run') ∧
    ∀ (interrupt : Interrupt) (run' : Run), v.pass interrupt config set run = .ok run' →
      run'.roll = v.finalRoll config set ∧
      ∃ emitted, run'.diagnostics.toList = run.diagnostics.toList ++ emitted ∧
        ∀ d, (d ∈ emitted ∧ d.code = some "UNDEFINED_REFERENCED_BEAN") ↔
          checksReferences set = true ∧ ∃ x line name, v.Checks config run'.unregistered x ∧
            v.Mentions run'.registry x line name ∧ v.Misses run'.registry name ∧
            d = undefinedReference x line name := by
  refine ⟨pass_completes v config set run, ?_⟩
  intro interrupt run' done
  obtain ⟨final, emitted, appended, exact⟩ := pass_ok (by decide)
    (fun set refused => performs_referenceTasks v set refused config) done
  refine ⟨final, emitted, appended, ?_⟩
  intro d
  constructor
  · rintro ⟨added, code⟩
    exact (exact d code).1 added
  · rintro ⟨complete, x, line, name, reported⟩
    have code : d.code = some "UNDEFINED_REFERENCED_BEAN" := by
      rw [reported.2.2.2]
      rfl
    exact ⟨(exact d code).2 ⟨complete, x, line, name, reported⟩, code⟩

/-! ### A name in an inner bean -/

/-- A declaration whose nested bean takes `missing` in a list, at line 3. -/
def danglingClient : Declaration :=
  let line : Nat → Location := .atLine "beans.xml"
  let nested : Definition (Value Declaration) :=
    { arguments := { generic := [⟨none, none, .list [.reference "missing" false], line 3⟩] }
      location := line 2 }
  { name := "client"
    aliases := []
    definition := { properties := [⟨"target", .nested ⟨"", [], nested⟩, line 2⟩]
                    location := line 1 } }

/-- A config with that bean alone. -/
def dangling : Context :=
  { name := "beans.xml"
    kind := .config
    beans := [.named "beans.xml" danglingClient] }

/-- The inner bean is checked with the bean around it, and its reference is reported. -/
theorem undefinedReference_of_dangling :
    ∃ run' x, ({} : Validator).pass (fun _ _ => false) dangling none {} = .ok run' ∧
      (Bean.named "beans.xml" danglingClient).innerDeep = [x] ∧
      undefinedReference x 3 "missing" ∈ run'.diagnostics := by
  obtain ⟨⟨run', done⟩, all⟩ := undefinedReferences_iff {} dangling none {}
  obtain ⟨final, emitted, appended, reported⟩ := all _ run' done
  refine ⟨run', _, done, rfl, ?_⟩
  have registry : run'.registry = (finalRoll {} dangling none).registry :=
    congrArg Roll.registry final
  have accepted : run'.unregistered = [] := congrArg Roll.refused final
  have misses : Misses {} run'.registry "missing" := by
    rw [registry]
    exact ⟨by decide, by rfl, by decide⟩
  have emits := (reported _).2 ⟨rfl, _, 3, "missing",
    .inner (List.mem_singleton_self _) (by simp [accepted]) (by decide)
      (List.mem_singleton_self _) (by decide),
    .argument (List.mem_singleton_self _) rfl (by decide), misses, rfl⟩
  rw [← Array.mem_toList_iff, appended]
  exact List.mem_append_right _ emits.1

end BeanWiring.Validator
