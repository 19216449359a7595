/-
# Equal content

Having the same content is an equivalence of values, of arguments and of definitions, as long as
no two properties of a definition nested in them share a name.  Two lists of properties are
compared by name: each property of the one has its equal in the other, and both are of one
length.  So an entry that is shadowed by another one of its name would not be equal to itself.

The proofs go by the parts of a value, which are smaller than the value.

Main statements: `IsWellFormed.same_refl`, `IsWellFormed.same_symm` and `same_trans`, that having
the same content is an equivalence of values, and what follows for arguments.
-/
import Mathlib.Data.List.Forall2
import Mathlib.Data.List.Perm.Subperm
import BeanWiring.Proofs.Definition.Layers

namespace BeanWiring

/-! ## Parts of a value -/

/-- A value in a definition is smaller than the definition. -/
theorem Definition.sizeOf_lt_of_mem_values {d : Definition (Value Declaration)}
    {v : Value Declaration} (h : v ∈ d.values) : sizeOf v < sizeOf d := by
  obtain ⟨_, _, _, _, _, _, _, _, _, _, _, _, _, ⟨indexed, generic⟩, properties, _, _⟩ := d
  simp only [Definition.values, Arguments.values, List.map_append, List.mem_append,
    List.map_map, List.mem_map, Function.comp_apply] at h
  simp only [Definition.mk.sizeOf_spec, Arguments.mk.sizeOf_spec]
  rcases h with (⟨⟨i, a⟩, there, rfl⟩ | ⟨a, there, rfl⟩) | ⟨p, there, rfl⟩
  · have smaller := List.sizeOf_lt_of_mem there
    cases a
    simp only [Prod.mk.sizeOf_spec, Argument.mk.sizeOf_spec] at smaller ⊢
    omega
  · have smaller := List.sizeOf_lt_of_mem there
    cases a
    simp only [Argument.mk.sizeOf_spec] at smaller ⊢
    omega
  · have smaller := List.sizeOf_lt_of_mem there
    cases p
    simp only [Property.mk.sizeOf_spec] at smaller ⊢
    omega

namespace Value

/-- The values directly inside a value: those of a collection, or of a nested definition. -/
def parts : Value Declaration → List (Value Declaration)
  | .nested d => d.definition.values
  | .list items => items
  | .set items => items
  | .map entries => entries.flatMap fun e => [e.1, e.2]
  | .literal _ _ => []
  | .reference _ _ => []
  | .nameReference _ => []
  | .properties _ => []
  | .null => []

/-- The key of an entry is a part of its map. -/
theorem fst_mem_parts {entries : List (Value Declaration × Value Declaration)}
    {e : Value Declaration × Value Declaration} (h : e ∈ entries) : e.1 ∈ (map entries).parts :=
  List.mem_flatMap.2 ⟨e, h, List.mem_cons_self⟩

/-- The value of an entry is a part of its map. -/
theorem snd_mem_parts {entries : List (Value Declaration × Value Declaration)}
    {e : Value Declaration × Value Declaration} (h : e ∈ entries) : e.2 ∈ (map entries).parts :=
  List.mem_flatMap.2 ⟨e, h, List.mem_cons_of_mem _ List.mem_cons_self⟩

/-- The parts of a value are smaller than the value, which the recursions below rest on. -/
theorem sizeOf_lt_of_mem_parts {v u : Value Declaration} (h : u ∈ v.parts) :
    sizeOf u < sizeOf v := by
  cases v with
  | nested d =>
    have smaller := Definition.sizeOf_lt_of_mem_values h
    cases d
    simp only [Value.nested.sizeOf_spec, Declaration.mk.sizeOf_spec] at smaller ⊢
    omega
  | list items =>
    have smaller : sizeOf u < sizeOf items := List.sizeOf_lt_of_mem h
    simp only [Value.list.sizeOf_spec]
    omega
  | set items =>
    have smaller : sizeOf u < sizeOf items := List.sizeOf_lt_of_mem h
    simp only [Value.set.sizeOf_spec]
    omega
  | map entries =>
    obtain ⟨⟨k, w⟩, there, either⟩ := List.mem_flatMap.1 h
    have smaller := List.sizeOf_lt_of_mem there
    simp only [Prod.mk.sizeOf_spec, Value.map.sizeOf_spec] at smaller ⊢
    simp only [List.mem_cons, List.not_mem_nil, or_false] at either
    rcases either with rfl | rfl <;> omega
  | literal | reference | nameReference | properties | null => cases h

/-- What holds of each value as soon as it holds of its parts holds of every value. -/
@[elab_as_elim]
theorem parts_induction {motive : Value Declaration → Prop}
    (step : ∀ v, (∀ u ∈ v.parts, motive u) → motive v) (v : Value Declaration) : motive v :=
  step v fun u _ => parts_induction step u
termination_by sizeOf v
decreasing_by exact sizeOf_lt_of_mem_parts ‹_›

/-- The tables of every definition nested in a value are well-formed, at any depth. -/
inductive IsWellFormed : Value Declaration → Prop
  | intro {v : Value Declaration} (tables : ∀ d, v = .nested d → d.definition.IsWellFormed)
      (parts : ∀ u ∈ v.parts, IsWellFormed u) : IsWellFormed v

end Value

/-- The tables of a definition are well-formed, and so are those of all definitions in it. -/
structure Definition.IsWellFormedDeep (d : Definition (Value Declaration)) : Prop where
  tables : d.IsWellFormed
  values : ∀ v ∈ d.values, v.IsWellFormed

/-- The parts of a well-formed value are well formed. -/
theorem Value.IsWellFormed.part {v u : Value Declaration} (h : v.IsWellFormed)
    (inside : u ∈ v.parts) : u.IsWellFormed := by
  obtain ⟨-, parts⟩ := h
  exact parts u inside

/-- The definition inside a well-formed value is well formed at every depth. -/
theorem Value.IsWellFormed.nested {d : Declaration} (h : (Value.nested d).IsWellFormed) :
    d.definition.IsWellFormedDeep := by
  obtain ⟨tables, parts⟩ := h
  exact ⟨tables d rfl, parts⟩

/-! ## Comparison of lists -/

/-- Arguments of the same content that were written at the same place. -/
def Argument.Same (a b : Argument (Value Declaration)) : Prop :=
  a.typeName = b.typeName ∧ a.name = b.name ∧ a.value.same b.value = true ∧
    a.location = b.location

/-- A property has its equal in a table. -/
def Property.HasSame (p : Property (Value Declaration))
    (qs : List (Property (Value Declaration))) : Prop :=
  ∃ q, Keyed.get? Property.name p.name qs = some q ∧ p.value.same q.value = true ∧
    p.location = q.location

section Lists

/-- Two lists have the same items when they agree item by item, in order. -/
theorem sameItems_iff {xs ys : List (Value Declaration)} :
    sameItems xs ys = true ↔ List.Forall₂ (fun x y => x.same y = true) xs ys := by
  induction xs generalizing ys with
  | nil => cases ys <;> simp [sameItems]
  | cons x xs ih => cases ys <;> simp [sameItems, ih]

/-- Two maps have the same entries when keys and values agree entry by entry, in order. -/
theorem sameEntries_iff {xs ys : List (Value Declaration × Value Declaration)} :
    sameEntries xs ys = true ↔
      List.Forall₂ (fun x y => x.1.same y.1 = true ∧ x.2.same y.2 = true) xs ys := by
  induction xs generalizing ys with
  | nil => cases ys <;> simp [sameEntries]
  | cons x xs ih =>
    obtain ⟨k, v⟩ := x
    cases ys <;> simp [sameEntries, ih]

/-- Generic arguments are the same when they agree one by one, in order. -/
theorem sameGeneric_iff {as bs : List (Argument (Value Declaration))} :
    sameGeneric as bs = true ↔ List.Forall₂ Argument.Same as bs := by
  induction as generalizing bs with
  | nil => cases bs <;> simp [sameGeneric]
  | cons a as ih =>
    obtain ⟨_, _, _, _⟩ := a
    cases bs <;> simp [sameGeneric, ih, Argument.Same, and_assoc]

/-- Indexed arguments are the same when positions and arguments agree one by one. -/
theorem sameIndexed_iff {as bs : List (Nat × Argument (Value Declaration))} :
    sameIndexed as bs = true ↔
      List.Forall₂ (fun p q => p.1 = q.1 ∧ p.2.Same q.2) as bs := by
  induction as generalizing bs with
  | nil => cases bs <;> simp [sameIndexed]
  | cons p as ih =>
    obtain ⟨i, _, _, _, _⟩ := p
    cases bs with
    | nil => simp [sameIndexed]
    | cons q bs =>
      obtain ⟨j, b⟩ := q
      rw [List.forall₂_cons, ← ih]
      simp [sameIndexed, Argument.Same, and_assoc]

/-- Properties are compared by name, so their order does not matter. -/
theorem sameProperties_iff {ps qs : List (Property (Value Declaration))} :
    sameProperties ps qs = true ↔ ∀ p ∈ ps, p.HasSame qs := by
  induction ps with
  | nil => simp [sameProperties]
  | cons p ps ih =>
    obtain ⟨name, value, location⟩ := p
    rw [List.forall_mem_cons, ← ih]
    simp only [sameProperties, Bool.and_eq_true, Property.HasSame]
    refine and_congr_left fun _ => ?_
    cases Keyed.get? Property.name name qs <;> simp

end Lists

/-- Two definitions have the same content when their shells are equal, their arguments agree in
order and their properties by name. -/
theorem sameDefinition_iff {d e : Definition (Value Declaration)} :
    sameDefinition d e = true ↔
      d.shell = e.shell ∧
      List.Forall₂ (fun p q => p.1 = q.1 ∧ p.2.Same q.2) d.arguments.indexed
        e.arguments.indexed ∧
      List.Forall₂ Argument.Same d.arguments.generic e.arguments.generic ∧
      d.properties.length = e.properties.length ∧ ∀ p ∈ d.properties, p.HasSame e.properties := by
  rw [← sameIndexed_iff, ← sameGeneric_iff, ← sameProperties_iff]
  obtain ⟨_, _, _, _, _, _, _, _, _, _, _, _, _, ⟨indexed, generic⟩, properties, _, _⟩ := d
  simp [sameDefinition, and_assoc]

/-- Two declarations have the same content when names, aliases and definitions agree. -/
theorem Declaration.same_iff {d e : Declaration} :
    d.same e = true ↔
      d.name = e.name ∧ d.aliases = e.aliases ∧
        sameDefinition d.definition e.definition = true := by
  cases d
  cases e
  simp [Declaration.same, and_assoc]

/-! ## Lists of which the first has equals of every entry -/

section Forall2

variable {α : Type} {R : α → α → Prop} {xs ys zs : List α}

/-- What is symmetric from every entry of a list is symmetric from the list. -/
theorem forall₂_symm (back : ∀ x ∈ xs, ∀ y, R x y → R y x) (h : List.Forall₂ R xs ys) :
    List.Forall₂ R ys xs := by
  induction h with
  | nil => exact .nil
  | cons first _ ih =>
    obtain ⟨here, rest⟩ := List.forall_mem_cons.1 back
    exact .cons (here _ first) (ih rest)

/-- What is transitive from every entry of a list is transitive from the list. -/
theorem forall₂_trans (onward : ∀ x ∈ xs, ∀ y z, R x y → R y z → R x z)
    (h : List.Forall₂ R xs ys) (h' : List.Forall₂ R ys zs) : List.Forall₂ R xs zs := by
  induction h generalizing zs with
  | nil => cases h'; exact .nil
  | cons first _ ih =>
    obtain ⟨here, rest⟩ := List.forall_mem_cons.1 onward
    cases h' with
    | cons second others => exact .cons (here _ _ first second) (ih rest others)

end Forall2

/-! ## Definitions -/

namespace Definition

variable {d e f : Definition (Value Declaration)}

/-- The value of an indexed argument is one of the definition's values. -/
theorem mem_values_of_indexed {p : Nat × Argument (Value Declaration)}
    (h : p ∈ d.arguments.indexed) : p.2.value ∈ d.values :=
  List.mem_append_left _ (List.mem_map_of_mem
    (List.mem_append_left _ (List.mem_map_of_mem (f := Prod.snd) h)))

/-- The value of a generic argument is one of the definition's values. -/
theorem mem_values_of_generic {a : Argument (Value Declaration)}
    (h : a ∈ d.arguments.generic) : a.value ∈ d.values :=
  List.mem_append_left _ (List.mem_map_of_mem (List.mem_append_right _ h))

/-- The value of a property is one of the definition's values. -/
theorem mem_values_of_property {p : Property (Value Declaration)} (h : p ∈ d.properties) :
    p.value ∈ d.values :=
  List.mem_append_right _ (List.mem_map_of_mem h)

/-- A well-formed definition has its own content if each of its values has. -/
theorem same_refl (tables : d.IsWellFormed) (values : ∀ v ∈ d.values, v.same v = true) :
    sameDefinition d d = true := by
  refine sameDefinition_iff.2 ⟨rfl, List.forall₂_same.2 ?_, List.forall₂_same.2 ?_, rfl, ?_⟩
  · intro p hp
    exact ⟨rfl, rfl, rfl, values _ (mem_values_of_indexed hp), rfl⟩
  · intro a ha
    exact ⟨rfl, rfl, values _ (mem_values_of_generic ha), rfl⟩
  · intro p hp
    exact ⟨p, Keyed.get?_key_of_mem tables.properties hp, values _ (mem_values_of_property hp),
      rfl⟩

/-- Where the names of properties are distinct, each entry of a second table of one length has
its equal in the first one if each entry of the first one has its equal in the second. -/
theorem hasSame_of_length_eq {ps qs : List (Property (Value Declaration))}
    (once : (ps.map Property.name).Nodup) (lengths : ps.length = qs.length)
    (back : ∀ p ∈ ps, ∀ u, p.value.same u = true → u.same p.value = true)
    (h : ∀ p ∈ ps, p.HasSame qs) : ∀ q ∈ qs, q.HasSame ps := by
  -- All names of the first table come in the second, which has no room for others.
  have names : (ps.map Property.name).Perm (qs.map Property.name) := by
    apply (List.Nodup.subperm once ?_).perm_of_length_le
    · rw [List.length_map, List.length_map]
      omega
    · intro name listed
      obtain ⟨p, hp, rfl⟩ := List.mem_map.1 listed
      obtain ⟨q, found, -, -⟩ := h p hp
      have named : q.name = p.name := by simpa using List.find?_some found
      exact named ▸ List.mem_map_of_mem (List.mem_of_find?_eq_some found)
  intro q hq
  obtain ⟨p, hp, named⟩ := List.mem_map.1 (names.mem_iff.2 (List.mem_map_of_mem hq))
  obtain ⟨q', found, same, place⟩ := h p hp
  have own : Keyed.get? Property.name q.name qs = some q :=
    Keyed.get?_key_of_mem (names.nodup_iff.1 once) hq
  rw [named, own, Option.some.injEq] at found
  subst found
  exact ⟨p, named ▸ Keyed.get?_key_of_mem once hp, back p hp _ same, place.symm⟩

/-- The comparison of definitions can be turned round if that of their values can. -/
theorem same_symm (tables : d.IsWellFormed)
    (back : ∀ v ∈ d.values, ∀ u, v.same u = true → u.same v = true)
    (h : sameDefinition d e = true) : sameDefinition e d = true := by
  have argument : ∀ {a b : Argument (Value Declaration)}, a.value ∈ d.values → a.Same b →
      b.Same a := by
    rintro a b inside ⟨type, name, value, place⟩
    exact ⟨type.symm, name.symm, back _ inside _ value, place.symm⟩
  obtain ⟨shell, indexed, generic, lengths, properties⟩ := sameDefinition_iff.1 h
  refine sameDefinition_iff.2 ⟨shell.symm, forall₂_symm ?_ indexed, forall₂_symm ?_ generic,
    lengths.symm, ?_⟩
  · rintro p hp q ⟨index, same⟩
    exact ⟨index.symm, argument (mem_values_of_indexed hp) same⟩
  · intro a ha b same
    exact argument (mem_values_of_generic ha) same
  · exact hasSame_of_length_eq tables.properties lengths
      (fun p hp => back _ (mem_values_of_property hp)) properties

/-- The comparison of definitions is transitive if that of their values is. -/
theorem same_trans
    (onward : ∀ v ∈ d.values, ∀ u t, v.same u = true → u.same t = true → v.same t = true)
    (h : sameDefinition d e = true) (h' : sameDefinition e f = true) :
    sameDefinition d f = true := by
  have argument : ∀ {a b c : Argument (Value Declaration)}, a.value ∈ d.values → a.Same b →
      b.Same c → a.Same c := by
    rintro a b c inside ⟨type, name, value, place⟩ ⟨type', name', value', place'⟩
    exact ⟨type.trans type', name.trans name', onward _ inside _ _ value value',
      place.trans place'⟩
  obtain ⟨shell, indexed, generic, lengths, properties⟩ := sameDefinition_iff.1 h
  obtain ⟨shell', indexed', generic', lengths', properties'⟩ := sameDefinition_iff.1 h'
  refine sameDefinition_iff.2 ⟨shell.trans shell', forall₂_trans ?_ indexed indexed',
    forall₂_trans ?_ generic generic', lengths.trans lengths', ?_⟩
  · rintro p hp q r ⟨index, same⟩ ⟨index', same'⟩
    exact ⟨index.trans index', argument (mem_values_of_indexed hp) same same'⟩
  · intro a ha b c same same'
    exact argument (mem_values_of_generic ha) same same'
  · intro p hp
    obtain ⟨q, found, same, place⟩ := properties p hp
    have named : q.name = p.name := by simpa using List.find?_some found
    obtain ⟨r, found', same', place'⟩ := properties' q (List.mem_of_find?_eq_some found)
    exact ⟨r, named ▸ found', onward _ (mem_values_of_property hp) _ _ same same',
      place.trans place'⟩

end Definition

/-! ## Values -/

namespace Value

variable {v u t : Value Declaration}

/-- A value whose tables are well-formed has the same content as itself. -/
theorem IsWellFormed.same_refl (h : v.IsWellFormed) : v.same v = true := by
  induction v using parts_induction with
  | step v ih =>
    have parts : ∀ u ∈ v.parts, u.same u = true := fun u inside => ih u inside (h.part inside)
    cases v <;> simp only [same, decide_true, Bool.and_self]
    case nested d =>
      exact Declaration.same_iff.2 ⟨rfl, rfl, Definition.same_refl h.nested.tables parts⟩
    case list items => exact sameItems_iff.2 (List.forall₂_same.2 parts)
    case set items => exact sameItems_iff.2 (List.forall₂_same.2 parts)
    case map entries =>
      apply sameEntries_iff.2 (List.forall₂_same.2 _)
      intro e he
      exact ⟨parts _ (fst_mem_parts he), parts _ (snd_mem_parts he)⟩

/-- If a value whose tables are well-formed has the same content as another one, that has the
same content as the value. -/
theorem IsWellFormed.same_symm (h : v.IsWellFormed) (alike : v.same u = true) :
    u.same v = true := by
  induction v using parts_induction generalizing u with
  | step v ih =>
    have back : ∀ w ∈ v.parts, ∀ u, w.same u = true → u.same w = true :=
      fun w inside u => ih w inside (h.part inside)
    cases v <;> cases u <;>
      simp only [same, Bool.false_eq_true, Bool.and_eq_true, decide_eq_true_eq] at alike ⊢
    case literal.literal => exact ⟨alike.1.symm, alike.2.symm⟩
    case reference.reference => exact ⟨alike.1.symm, alike.2.symm⟩
    case nameReference.nameReference => exact alike.symm
    case properties.properties => exact alike.symm
    case nested.nested =>
      obtain ⟨name, aliases, definition⟩ := Declaration.same_iff.1 alike
      exact Declaration.same_iff.2
        ⟨name.symm, aliases.symm, Definition.same_symm h.nested.tables back definition⟩
    case list.list => exact sameItems_iff.2 (forall₂_symm back (sameItems_iff.1 alike))
    case set.set => exact sameItems_iff.2 (forall₂_symm back (sameItems_iff.1 alike))
    case map.map =>
      apply sameEntries_iff.2 (forall₂_symm _ (sameEntries_iff.1 alike))
      rintro e he f ⟨key, value⟩
      exact ⟨back _ (fst_mem_parts he) _ key, back _ (snd_mem_parts he) _ value⟩

/-- Values of the same content as a third one have the same content. -/
theorem same_trans (alike : v.same u = true) (alike' : u.same t = true) : v.same t = true := by
  induction v using parts_induction generalizing u t with
  | step v ih =>
    have onward : ∀ w ∈ v.parts, ∀ u t, w.same u = true → u.same t = true → w.same t = true :=
      fun w inside _ _ => ih w inside
    cases v <;> cases u <;>
      simp only [same, Bool.false_eq_true, Bool.and_eq_true, decide_eq_true_eq] at alike <;>
      cases t <;>
      simp only [same, Bool.false_eq_true, Bool.and_eq_true, decide_eq_true_eq] at alike' ⊢
    case literal.literal.literal => exact ⟨alike.1.trans alike'.1, alike.2.trans alike'.2⟩
    case reference.reference.reference =>
      exact ⟨alike.1.trans alike'.1, alike.2.trans alike'.2⟩
    case nameReference.nameReference.nameReference => exact alike.trans alike'
    case properties.properties.properties => exact alike.trans alike'
    case nested.nested.nested =>
      obtain ⟨name, aliases, definition⟩ := Declaration.same_iff.1 alike
      obtain ⟨name', aliases', definition'⟩ := Declaration.same_iff.1 alike'
      exact Declaration.same_iff.2 ⟨name.trans name', aliases.trans aliases',
        Definition.same_trans onward definition definition'⟩
    case list.list.list =>
      exact sameItems_iff.2 (forall₂_trans onward (sameItems_iff.1 alike) (sameItems_iff.1 alike'))
    case set.set.set =>
      exact sameItems_iff.2 (forall₂_trans onward (sameItems_iff.1 alike) (sameItems_iff.1 alike'))
    case map.map.map =>
      apply sameEntries_iff.2
        (forall₂_trans _ (sameEntries_iff.1 alike) (sameEntries_iff.1 alike'))
      rintro e he f g ⟨key, value⟩ ⟨key', value'⟩
      exact ⟨onward _ (fst_mem_parts he) _ _ key key', onward _ (snd_mem_parts he) _ _ value value'⟩

end Value

/-! ## Arguments -/

namespace Argument

variable {a b c : Argument (Value Declaration)}

/-- Two arguments have the same content when values, types and names agree. -/
theorem sameContent_iff :
    a.sameContent b = true ↔
      a.value.same b.value = true ∧ a.typeName = b.typeName ∧ a.name = b.name := by
  show (a.value.same b.value && decide (a.typeName = b.typeName) && decide (a.name = b.name))
    = true ↔ _
  simp [and_assoc]

theorem sameContent_refl (h : a.value.IsWellFormed) : a.sameContent a = true :=
  sameContent_iff.2 ⟨h.same_refl, rfl, rfl⟩

theorem sameContent_symm (h : a.value.IsWellFormed) (alike : a.sameContent b = true) :
    b.sameContent a = true := by
  obtain ⟨value, type, name⟩ := sameContent_iff.1 alike
  exact sameContent_iff.2 ⟨h.same_symm value, type.symm, name.symm⟩

theorem sameContent_trans (alike : a.sameContent b = true) (alike' : b.sameContent c = true) :
    a.sameContent c = true := by
  obtain ⟨value, type, name⟩ := sameContent_iff.1 alike
  obtain ⟨value', type', name'⟩ := sameContent_iff.1 alike'
  exact sameContent_iff.2 ⟨Value.same_trans value value', type.trans type', name.trans name'⟩

end Argument

end BeanWiring
