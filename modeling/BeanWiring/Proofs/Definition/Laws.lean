/-
# Laws of overriding

Laying definitions over one another does not depend on how they are grouped, and laying a
definition over one that has it already changes nothing.  This is what allows inheritance to
go from the root down or one parent at a time.

Each field has a law of its own.  Scalars keep the last one declared.  Properties and indexed
arguments are tables, where a write keeps the place of its key.  Arguments without index and
method overrides are appended where no equal one is there; for them grouping does not matter
because having the same content is transitive.

Main statements:

* `overrideWith_laws` : overriding is associative and idempotent;
* `IsWellFormedDeep.addProperty`, `IsWellFormedDeep.addArgument` and
  `IsWellFormedDeep.overrideWith` : the tables of a definition stay well-formed while it is
  built and overridden.
-/
import Mathlib.Data.List.Sort
import BeanWiring.Proofs.Definition.Content

namespace BeanWiring

/-! ## Texts -/

/-- Whether an empty text is left out before or after makes no difference. -/
theorem nonEmpty_or (upper lower : Option String) :
    nonEmpty ((nonEmpty upper).or lower) = (nonEmpty upper).or (nonEmpty lower) := by
  cases upper with
  | none => rfl
  | some text => by_cases empty : text = "" <;> simp [nonEmpty, Option.filter, empty]

theorem nonEmpty_or_self (text : Option String) : (nonEmpty text).or text = text := by
  cases text with
  | none => rfl
  | some text => by_cases empty : text = "" <;> simp [nonEmpty, Option.filter, empty]

/-! ## Arguments -/

namespace Arguments

section Tables

variable {V : Type} {xs ys zs : List (Nat × Argument V)}

/-- Tables in index order are equal if they answer every index alike. -/
theorem IsSorted.eq_of_get? (hx : IsSorted xs) (hy : IsSorted ys)
    (same : ∀ index, Keyed.get? Prod.fst index xs = Keyed.get? Prod.fst index ys) : xs = ys := by
  have mem_iff : ∀ {zs : List (Nat × Argument V)} (p), IsSorted zs →
      (p ∈ zs ↔ Keyed.get? Prod.fst p.1 zs = some p) := fun p sorted =>
    ⟨Keyed.get?_key_of_mem sorted.nodup, List.mem_of_find?_eq_some⟩
  have irrefl : Std.Irrefl fun p q : Nat × Argument V => p.1 < q.1 := ⟨fun p => lt_irrefl p.1⟩
  have antisymm : Std.Antisymm fun p q : Nat × Argument V => p.1 < q.1 :=
    ⟨fun _ _ h h' => absurd h (lt_asymm h')⟩
  apply List.Pairwise.eq_of_mem_iff hx hy
  intro p
  rw [mem_iff p hx, mem_iff p hy, same]

/-- Writing a table in index order over itself changes nothing. -/
theorem foldl_insertAt_self (hx : IsSorted xs) :
    xs.foldl (fun args p => insertAt p.1 p.2 args) xs = xs := by
  apply (isSorted_foldl_insertAt xs hx).eq_of_get? hx
  intro index
  rw [get?_foldl_insertAt xs hx hx.nodup]
  cases Keyed.get? Prod.fst index xs <;> rfl

/-- Two tables written one after the other are one table, the first with the second written
over it. -/
theorem foldl_insertAt_foldl (hx : IsSorted xs) (hy : IsSorted ys) (hz : IsSorted zs) :
    zs.foldl (fun args p => insertAt p.1 p.2 args)
        (ys.foldl (fun args p => insertAt p.1 p.2 args) xs)
      = (zs.foldl (fun args p => insertAt p.1 p.2 args) ys).foldl
          (fun args p => insertAt p.1 p.2 args) xs := by
  have below := isSorted_foldl_insertAt ys hx
  have above := isSorted_foldl_insertAt zs hy
  apply (isSorted_foldl_insertAt zs below).eq_of_get? (isSorted_foldl_insertAt _ hx)
  intro index
  rw [get?_foldl_insertAt zs below hz.nodup, get?_foldl_insertAt ys hx hy.nodup,
    get?_foldl_insertAt _ hx above.nodup, get?_foldl_insertAt zs hy hz.nodup, Option.or_assoc]

end Tables

variable {a b c : Arguments (Value Declaration)}

theorem addDistinct_eq {V : Type} [BEq V] :
    addDistinct (V := V) = Keyed.addUnlessCovered Argument.sameContent := rfl

/-- Laying arguments over one another does not depend on how they are grouped. -/
theorem overrideWith_assoc (ha : IsSorted a.indexed) (hb : IsSorted b.indexed)
    (hc : IsSorted c.indexed) :
    (a.overrideWith b).overrideWith c = a.overrideWith (b.overrideWith c) := by
  have generic : c.generic.foldl addDistinct (b.generic.foldl addDistinct a.generic)
      = (c.generic.foldl addDistinct b.generic).foldl addDistinct a.generic :=
    Keyed.foldl_addUnlessCovered_foldl c.generic fun _ _ _ => Argument.sameContent_trans
  simp only [overrideWith, foldl_insertAt_foldl ha hb hc, generic]

/-- Laying arguments over themselves changes nothing. -/
theorem overrideWith_self (sorted : IsSorted a.indexed)
    (values : ∀ x ∈ a.generic, x.value.IsWellFormed) : a.overrideWith a = a := by
  simp only [overrideWith, addDistinct_eq, foldl_insertAt_self sorted]
  rw [Keyed.foldl_addUnlessCovered_of_covered]
  intro x there
  exact List.any_eq_true.2 ⟨x, there, Argument.sameContent_refl (values x there)⟩

end Arguments

/-! ## Method overrides -/

section Overrides

variable {xs ys zs : List MethodOverride}

theorem addOverride_eq : addOverride = Keyed.addUnlessCovered fun o p => decide (o = p) := by
  funext overrides o
  have there : overrides.contains o = overrides.any fun p => decide (p = o) := by
    rw [List.contains_eq_any_beq]
    congr 1
    funext p
    rw [Bool.eq_iff_iff, beq_iff_eq, decide_eq_true_eq, eq_comm]
  rw [addOverride, Keyed.addUnlessCovered, there]

theorem foldl_addOverride_self : xs.foldl addOverride xs = xs := by
  rw [addOverride_eq, Keyed.foldl_addUnlessCovered_of_covered]
  intro o there
  exact List.any_eq_true.2 ⟨o, there, decide_eq_true rfl⟩

theorem foldl_addOverride_foldl :
    zs.foldl addOverride (ys.foldl addOverride xs)
      = (zs.foldl addOverride ys).foldl addOverride xs := by
  rw [addOverride_eq]
  apply Keyed.foldl_addUnlessCovered_foldl
  intro o p q same same'
  exact decide_eq_true ((of_decide_eq_true same).trans (of_decide_eq_true same'))

end Overrides

/-! ## Values of a definition laid over another -/

namespace Definition

variable {d e : Definition (Value Declaration)} {v : Value Declaration}

theorem mem_values_iff :
    v ∈ d.values ↔ (∃ p ∈ d.arguments.indexed, p.2.value = v) ∨
      (∃ a ∈ d.arguments.generic, a.value = v) ∨ ∃ p ∈ d.properties, p.value = v := by
  simp [values, Arguments.values]

/-- Overriding adds no value of its own. -/
theorem mem_values_of_mem_overrideWith (h : v ∈ (d.overrideWith e).values) :
    v ∈ e.values ∨ v ∈ d.values := by
  rcases mem_values_iff.1 h with ⟨p, hp, rfl⟩ | ⟨a, ha, rfl⟩ | ⟨p, hp, rfl⟩
  · exact (Keyed.mem_or_mem_of_mem_foldl (fun _ _ _ => Arguments.eq_or_mem_of_mem_insertAt) hp).imp
      mem_values_of_indexed mem_values_of_indexed
  · exact (Keyed.mem_or_mem_of_mem_foldl
      (fun _ _ _ => Keyed.eq_or_mem_of_mem_addUnlessCovered) ha).imp
      mem_values_of_generic mem_values_of_generic
  · exact (Keyed.mem_or_mem_of_mem_foldl (fun _ _ _ => Keyed.eq_or_mem_of_mem_put) hp).imp
      mem_values_of_property mem_values_of_property

namespace IsWellFormedDeep

theorem addProperty (h : d.IsWellFormedDeep) {p : Property (Value Declaration)}
    (hp : p.value.IsWellFormed) : (d.addProperty p).IsWellFormedDeep := by
  refine ⟨h.tables.addProperty p, fun v hv => ?_⟩
  rcases mem_values_iff.1 hv with ⟨q, hq, rfl⟩ | ⟨a, ha, rfl⟩ | ⟨q, hq, rfl⟩
  · exact h.values _ (mem_values_of_indexed hq)
  · exact h.values _ (mem_values_of_generic ha)
  · rcases Keyed.eq_or_mem_of_mem_put hq with rfl | hq
    · exact hp
    · exact h.values _ (mem_values_of_property hq)

theorem addArgument (h : d.IsWellFormedDeep) (index : Option Nat)
    {a : Argument (Value Declaration)} (ha : a.value.IsWellFormed) :
    { d with arguments := d.arguments.add index a }.IsWellFormedDeep := by
  refine ⟨h.tables.addArgument index a, fun v hv => ?_⟩
  rcases mem_values_iff.1 hv with ⟨q, hq, rfl⟩ | ⟨b, hb, rfl⟩ | ⟨q, hq, rfl⟩
  · cases index with
    | none => exact h.values _ (mem_values_of_indexed hq)
    | some i =>
      rcases Arguments.eq_or_mem_of_mem_insertAt hq with rfl | hq
      · exact ha
      · exact h.values _ (mem_values_of_indexed hq)
  · cases index with
    | none =>
      rcases List.mem_append.1 hb with hb | hb
      · exact h.values _ (mem_values_of_generic hb)
      · rw [List.mem_singleton.1 hb]
        exact ha
    | some i => exact h.values _ (mem_values_of_generic hb)
  · exact h.values _ (mem_values_of_property hq)

/-- Overriding keeps all tables well-formed, at any depth. -/
theorem overrideWith (hd : d.IsWellFormedDeep) (he : e.IsWellFormedDeep) :
    (d.overrideWith e).IsWellFormedDeep :=
  ⟨hd.tables.overrideWith e, fun v hv =>
    (mem_values_of_mem_overrideWith hv).elim (he.values v) (hd.values v)⟩

end IsWellFormedDeep

end Definition

/-! ## Definitions -/

namespace Definition

variable {a b c : Definition (Value Declaration)}

/-- Laying definitions over one another does not depend on how they are grouped. -/
theorem overrideWith_assoc (ha : a.IsWellFormed) (hb : b.IsWellFormed) (hc : c.IsWellFormed) :
    (a.overrideWith b).overrideWith c = a.overrideWith (b.overrideWith c) := by
  have arguments := Arguments.overrideWith_assoc ha.indexed hb.indexed hc.indexed
  have properties : Keyed.putAll Property.name c.properties
        (Keyed.putAll Property.name b.properties a.properties)
      = Keyed.putAll Property.name (Keyed.putAll Property.name c.properties b.properties)
          a.properties := Keyed.putAll_putAll _ hb.properties _
  have dependsOn : (if c.dependsOn.isEmpty then
        (if b.dependsOn.isEmpty then a.dependsOn else b.dependsOn) else c.dependsOn)
      = if (if c.dependsOn.isEmpty then b.dependsOn else c.dependsOn).isEmpty then a.dependsOn
        else if c.dependsOn.isEmpty then b.dependsOn else c.dependsOn := by
    by_cases empty : c.dependsOn.isEmpty <;> simp [empty]
  simp only [overrideWith, Definition.mk.injEq, nonEmpty_or, Option.or_assoc, true_and, and_true]
  exact ⟨dependsOn, arguments, properties, foldl_addOverride_foldl⟩

/-- Laying a definition over itself changes nothing. -/
theorem overrideWith_self (h : a.IsWellFormedDeep) : a.overrideWith a = a := by
  have arguments := Arguments.overrideWith_self h.tables.indexed
    fun x there => h.values _ (mem_values_of_generic there)
  have properties : Keyed.putAll Property.name a.properties a.properties = a.properties :=
    Keyed.putAll_of_get?_self fun p there => Keyed.get?_key_of_mem h.tables.properties there
  cases a
  simp only [overrideWith, Definition.mk.injEq, nonEmpty_or_self, Option.or_self, ite_self,
    true_and, and_true]
  exact ⟨arguments, properties, foldl_addOverride_self⟩

/-- **Laws of overriding.**  Overriding is associative, a definition laid over itself stays as it
is, and so does one that has been overridden by it before. -/
theorem overrideWith_laws (ha : a.IsWellFormedDeep) (hb : b.IsWellFormedDeep)
    (hc : c.IsWellFormed) :
    (a.overrideWith b).overrideWith c = a.overrideWith (b.overrideWith c) ∧
      a.overrideWith a = a ∧
      (a.overrideWith b).overrideWith b = a.overrideWith b := by
  refine ⟨overrideWith_assoc ha.tables hb.tables hc, overrideWith_self ha, ?_⟩
  rw [overrideWith_assoc ha.tables hb.tables hb.tables, overrideWith_self hb]

/-- A definition is laid over another that passes a bean of the same content, with its properties
in another order, and the sum over a third that passes the same text twice. -/
theorem overrideWith_laws_nested :
    ∃ a b c : Definition (Value Declaration),
      (a.overrideWith b).overrideWith c = a.overrideWith (b.overrideWith c) ∧
      (a.overrideWith b).arguments.generic.length = 3 ∧
      a.overrideWith a = a ∧ (a.overrideWith b).overrideWith b = a.overrideWith b := by
  let place : Location := .atLine "beans.xml" 1
  let text (s : String) : Value Declaration := .literal s none
  let property (name : String) : Property (Value Declaration) := ⟨name, text name, place⟩
  let pass (v : Value Declaration) : Argument (Value Declaration) :=
    { value := v, location := place }
  let bean (names : List String) : Value Declaration :=
    .nested ⟨"", [], { properties := names.map property, location := place }⟩
  let a : Definition (Value Declaration) :=
    { arguments := ⟨[(1, pass (text "i"))],
        [pass (text "x"), pass (text "x"), pass (bean ["p", "q"])]⟩
      location := place }
  let b : Definition (Value Declaration) :=
    { arguments := ⟨[(0, pass (text "j"))], [pass (bean ["q", "p"]), pass (text "x")]⟩
      properties := [property "p"]
      location := place }
  let c : Definition (Value Declaration) :=
    { arguments := ⟨[], [pass (text "y")]⟩, properties := [property "p"], location := place }
  have plain : ∀ s, (text s).IsWellFormed := fun s => ⟨nofun, nofun⟩
  have nested : ∀ names : List String, names.Nodup → (bean names).IsWellFormed := by
    intro names once
    refine ⟨?_, ?_⟩
    · rintro _ ⟨⟩
      exact ⟨by simpa [property, Function.comp_def] using once, .nil⟩
    · intro u inside
      obtain ⟨p, hp, rfl⟩ := List.mem_map.1 inside
      obtain ⟨name, -, rfl⟩ := List.mem_map.1 hp
      exact plain name
  have ha : a.IsWellFormedDeep := by
    refine ⟨by decide, ?_⟩
    simp only [a, Definition.values, Arguments.values, pass]
    simp [plain, nested]
  have hb : b.IsWellFormedDeep := by
    refine ⟨by decide, ?_⟩
    simp only [b, Definition.values, Arguments.values, pass, property]
    simp [plain, nested]
  have hc : c.IsWellFormed := by decide
  have sameBean : (pass (bean ["p", "q"])).sameContent (pass (bean ["q", "p"])) = true := by
    show ((bean ["p", "q"]).same (bean ["q", "p"]) && true && true) = true
    simp [bean, property, text, Value.same, Declaration.same, sameDefinition, sameIndexed,
      sameGeneric, sameProperties, Definition.shell, Keyed.get?]
  have sameText : (pass (text "x")).sameContent (pass (text "x")) = true :=
    Argument.sameContent_refl (plain "x")
  have size : (a.overrideWith b).arguments.generic.length = 3 := by
    simp [a, b, overrideWith, Arguments.overrideWith, Arguments.addDistinct, sameBean, sameText]
  obtain ⟨assoc, self, twice⟩ := overrideWith_laws ha hb hc
  exact ⟨a, b, c, assoc, size, self, twice⟩

end Definition

end BeanWiring
