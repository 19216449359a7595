/-
# Remembered merged definitions

A cache answers a bean by its identity.  It gives every bean the merged definition of the
first bean of that identity that it was asked for, so it gives each bean its own exactly if
beans of one identity do not differ in what they inherit and declare.

An inner bean is identified by the bean around it and the line it starts on, so identities
can only clash where inner beans of one bean start on one line, or where beans of one name
come from one resource.

Main statements:

* `answers_eq_map_iff` : when a cache answers as if it remembered nothing;
* `HasOwnIds.eq_of_id` : the layouts in which no two beans share an identity.
-/
import BeanWiring.Lookup.Ancestry

namespace BeanWiring

/-- Of the beans that satisfy `P`, those of one identity have one merged definition. -/
def MergesById (ctx : Context) (P : Bean → Prop) : Prop :=
  ∀ b c, P b → P c → b.id = c.id → merged ctx b = merged ctx c

/-! ## A sequence of questions -/

namespace MergeCache

variable {ctx : Context} {cache : MergeCache} {asked bs : List Bean} {b : Bean}

/-- The definitions that a cache gives for beans that it is asked for one after the other. -/
def answers (cache : MergeCache) (ctx : Context) : List Bean → List (Definition (Value Declaration))
  | [] => []
  | b :: rest => (cache.merged ctx b).1 :: (cache.merged ctx b).2.answers ctx rest

/-- What a cache remembers when it has been asked for some beans: for each identity among them
the merged definition of the first. -/
def Remembers (cache : MergeCache) (ctx : Context) (asked : List Bean) : Prop :=
  ∀ id, cache.entries.lookup id
    = (asked.find? fun b => b.id = id).map (BeanWiring.merged ctx)

theorem remembers_nil (ctx : Context) : ({} : MergeCache).Remembers ctx [] := fun _ => rfl

/-- The first bean of the identity of `b`, if one was asked for, and otherwise `b`. -/
def firstOf (asked : List Bean) (b : Bean) : Bean :=
  (asked.find? fun c => c.id = b.id).getD b

/-- A cache answers with the definition of the first bean of the identity. -/
theorem Remembers.merged_fst (h : cache.Remembers ctx asked) (b : Bean) :
    (cache.merged ctx b).1 = BeanWiring.merged ctx (firstOf asked b) := by
  have known := h b.id
  unfold merged firstOf
  cases first : asked.find? fun c => c.id = b.id with
  | none =>
    rw [first, Option.map_none] at known
    rw [known]
    rfl
  | some c =>
    rw [first, Option.map_some] at known
    rw [known]
    rfl

/-- Asking for one more bean is remembered unless its identity is known. -/
theorem Remembers.merged_snd (h : cache.Remembers ctx asked) (b : Bean) :
    (cache.merged ctx b).2.Remembers ctx (asked ++ [b]) := by
  have known := h b.id
  intro id
  rw [List.find?_append]
  unfold merged
  cases first : asked.find? fun c => c.id = b.id with
  | none =>
    rw [first, Option.map_none] at known
    rw [known]
    show (cache.entries ++ [(b.id, BeanWiring.merged ctx b)]).lookup id = _
    rw [List.lookup_append, h id]
    -- Only a question for the identity of `b` itself can reach the new entry.
    cases asked.find? fun c => c.id = id with
    | some c => rfl
    | none =>
      by_cases same : b.id = id
      · simp [same]
      · have other : (id == b.id) = false := by simpa using fun e => same e.symm
        simp [List.lookup_cons, same, other]
  | some c =>
    rw [first, Option.map_some] at known
    rw [known]
    show cache.entries.lookup id = _
    rw [h id]
    cases others : asked.find? fun c => c.id = id with
    | some d => rfl
    | none =>
      have same : b.id ≠ id := by
        rintro rfl
        rw [first] at others
        cases others
      simp [same]

/-- Each bean gets the merged definition of the first bean of its identity. -/
theorem Remembers.answers_eq (h : cache.Remembers ctx asked) (bs : List Bean) :
    cache.answers ctx bs
      = bs.map fun b => BeanWiring.merged ctx (firstOf (asked ++ bs) b) := by
  -- The cache is general: what it remembers grows with every question.
  induction bs generalizing cache asked with
  | nil => rfl
  | cons b bs ih =>
    have first : firstOf (asked ++ b :: bs) b = firstOf asked b := by
      unfold firstOf
      rw [List.find?_append, List.find?_cons]
      cases asked.find? fun c => c.id = b.id <;> simp
    rw [answers, ih (h.merged_snd b), h.merged_fst, List.map_cons, first, List.append_assoc]
    rfl

/-- Among beans that were asked for, one of the identity is found. -/
theorem exists_first_of_mem (h : b ∈ bs) :
    ∃ c ∈ bs, (bs.find? fun c => c.id = b.id) = some c ∧ c.id = b.id := by
  have found : (bs.find? fun c => c.id = b.id).isSome :=
    List.find?_isSome.2 ⟨b, h, decide_eq_true rfl⟩
  obtain ⟨c, first⟩ := Option.isSome_iff_exists.1 found
  exact ⟨c, List.mem_of_find?_eq_some first, first, by simpa using List.find?_some first⟩

/-- The first bean of an identity is one of the beans asked for. -/
theorem firstOf_mem (h : b ∈ bs) : firstOf bs b ∈ bs ∧ (firstOf bs b).id = b.id := by
  obtain ⟨c, there, first, same⟩ := exists_first_of_mem h
  rw [firstOf, first]
  exact ⟨there, same⟩

/-- Beans of one identity have the same first bean. -/
theorem firstOf_eq {c : Bean} (h : b ∈ bs) (same : c.id = b.id) :
    firstOf bs c = firstOf bs b := by
  obtain ⟨d, -, first, -⟩ := exists_first_of_mem h
  rw [firstOf, firstOf, same, first]
  rfl

/-- A cache answers as if it remembered nothing exactly if no two of the beans that it is asked
for share their identity and differ in their merged definitions. -/
theorem answers_eq_map_iff (ctx : Context) (bs : List Bean) :
    ({} : MergeCache).answers ctx bs = bs.map (BeanWiring.merged ctx)
      ↔ MergesById ctx (· ∈ bs) := by
  rw [(remembers_nil ctx).answers_eq, List.nil_append, List.map_inj_left]
  constructor
  · -- Two beans of one identity get the definition of the bean asked for first.
    intro own b c hb hc same
    calc BeanWiring.merged ctx b
        = BeanWiring.merged ctx (firstOf bs b) := (own b hb).symm
      _ = BeanWiring.merged ctx (firstOf bs c) := by rw [firstOf_eq hc same]
      _ = BeanWiring.merged ctx c := own c hc
  · intro agree b hb
    obtain ⟨there, same⟩ := firstOf_mem hb
    exact agree _ b there hb same

end MergeCache

/-! ## Beans and their identities -/

namespace Bean

/-- A bean of a list, or a bean nested in one of them at any depth. -/
inductive Within (bs : List Bean) : Bean → Prop
  | own {b : Bean} (declared : b ∈ bs) : Within bs b
  | inner {owner b : Bean} (around : Within bs owner) (nested : b ∈ owner.inner) : Within bs b

variable {bs : List Bean} {b c : Bean}

/-- A bean nested in another one is made from its declaration. -/
theorem exists_innerBean_of_mem_inner {owner : Bean} (h : b ∈ owner.inner) :
    ∃ d : Declaration, b = d.innerBean owner.id := by
  obtain ⟨v, -, nested⟩ := List.mem_flatMap.1 h
  rw [resolveValue, Value.inner_mapInner] at nested
  obtain ⟨d, -, rfl⟩ := List.mem_map.1 nested
  exact ⟨d, rfl⟩

/-- An inner bean is identified by the bean around it and the line it starts on. -/
theorem id_of_mem_inner {owner : Bean} (h : b ∈ owner.inner) :
    b.id = .inner owner.id b.startLine := by
  obtain ⟨d, rfl⟩ := exists_innerBean_of_mem_inner h
  rfl

theorem isInner_of_mem_inner {owner : Bean} (h : b ∈ owner.inner) : b.isInner = true := by
  obtain ⟨d, rfl⟩ := exists_innerBean_of_mem_inner h
  rfl

/-- The beans nested in a bean at any depth. -/
theorem Within.innerDeep (h : Within bs b) : ∀ x ∈ b.innerDeep, Within bs x := by
  induction b using inner_induction with
  | step b ih =>
    intro x hx
    obtain ⟨i, direct, rfl | deeper⟩ := mem_innerDeep_iff.1 hx
    · exact .inner h direct
    · exact ih i direct (.inner h direct) x deeper

/-- Beans nested in a bean at any depth are inner beans. -/
theorem isInner_of_mem_innerDeep {owner x : Bean} (h : x ∈ owner.innerDeep) :
    x.isInner = true := by
  induction owner using inner_induction with
  | step owner ih =>
    obtain ⟨i, direct, rfl | deeper⟩ := mem_innerDeep_iff.1 h
    · exact isInner_of_mem_inner direct
    · exact ih i direct deeper

/-- Beans laid out so that each of them has an identity of its own: those with names of their
own differ in resource or name, and those nested in one bean start on lines of their own. -/
structure HasOwnIds (bs : List Bean) : Prop where
  named : ∀ b ∈ bs, ∃ resource, b.id = .named resource b.name
  distinct : ∀ b ∈ bs, ∀ c ∈ bs, b.id = c.id → b = c
  lines : ∀ owner, Within bs owner → ∀ i ∈ owner.inner, ∀ j ∈ owner.inner,
    i.startLine = j.startLine → i = j

/-- Beans with identities of their own, nested ones included, are equal if those are. -/
theorem HasOwnIds.eq_of_id (h : HasOwnIds bs) (withinB : Within bs b) (withinC : Within bs c)
    (same : b.id = c.id) : b = c := by
  induction withinB generalizing c with
  | own declaredB =>
    cases withinC with
    | own declaredC => exact h.distinct _ declaredB _ declaredC same
    | inner around nested =>
      obtain ⟨resource, named⟩ := h.named _ declaredB
      rw [named, id_of_mem_inner nested] at same
      cases same
  | inner aroundB nestedB ih =>
    cases withinC with
    | own declaredC =>
      obtain ⟨resource, named⟩ := h.named _ declaredC
      rw [named, id_of_mem_inner nestedB] at same
      cases same
    | inner aroundC nestedC =>
      -- The beans around them have one identity, so they are one bean.
      rw [id_of_mem_inner nestedB, id_of_mem_inner nestedC] at same
      obtain ⟨owners, lines⟩ := BeanId.inner.inj same
      cases ih aroundC owners
      exact h.lines _ aroundB _ nestedB _ nestedC lines

/-- Beans with names of their own, and nothing nested in them, have identities of their own. -/
theorem hasOwnIds_of_flat (named : ∀ b ∈ bs, ∃ resource, b.id = .named resource b.name)
    (distinct : ∀ b ∈ bs, ∀ c ∈ bs, b.name = c.name → b = c) (flat : ∀ b ∈ bs, b.inner = []) :
    HasOwnIds bs where
  named := named
  distinct := by
    intro b hb c hc same
    obtain ⟨_, ofB⟩ := named b hb
    obtain ⟨_, ofC⟩ := named c hc
    rw [ofB, ofC] at same
    exact distinct b hb c hc (BeanId.named.inj same).2
  lines := by
    have none : ∀ owner, Within bs owner → owner.inner = [] := by
      intro owner within
      induction within with
      | own declared => exact flat _ declared
      | inner _ nested ih =>
        rw [ih] at nested
        cases nested
    intro owner within i nested
    rw [none owner within] at nested
    cases nested

/-- Where beans have identities of their own, each has the merged definition of its identity. -/
theorem HasOwnIds.mergesById (h : HasOwnIds bs) (ctx : Context) : MergesById ctx (Within bs) :=
  fun _ _ withinB withinC same => congrArg (merged ctx) (h.eq_of_id withinB withinC same)

end Bean

end BeanWiring
