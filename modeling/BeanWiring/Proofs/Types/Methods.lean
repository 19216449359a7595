/-
# Methods of a class

Which method a query finds, in an index whose chains of super classes may be cyclic or lead to
unknown names.  The chain of a type is the walk that starts at its name, `SuperWalk` with nothing
met before: it goes on from class to super class, and ends where no super class is named or where
the name is unknown or was met before.  A query that accepts inherited methods finds the nearest
declaration on the chain; other queries look at the first class of the chain only.

Main statements:

* `SuperWalk.nodup` : a walk meets no class twice;
* `exists_superWalk_findMethod?` : the classes that a query looks at are those of the chain;
* `findMethod?_iff_isNearest` : what is found on the chain is the nearest declaration;
* `hasWritableProperty_iff` : when a property can be set.
-/
import BeanWiring.Proofs.Types.Hierarchy

namespace BeanWiring

/-! ## What a query asks for -/

namespace MethodQuery

/-- The method is what the query asks for: it has the name, and the number of arguments and the
kind if the query names them. -/
structure Admits (q : MethodQuery) (m : Method) : Prop where
  name : m.name = q.name
  arity : ∀ n, q.arity = .exactly n → m.arity = n
  ofType : q.staticness = .onType → m.isStatic = true
  ofInstance : q.staticness = .onInstance → m.isStatic = false

theorem accepts_iff_admits {q : MethodQuery} {m : Method} : q.accepts m = true ↔ q.Admits m := by
  obtain ⟨name, arity, staticness, inherited⟩ := q
  have byArity : arity.accepts m.arity = true ↔ ∀ n, arity = .exactly n → m.arity = n := by
    cases arity with
    | any => simp [Arity.accepts]
    | exactly n => simp [Arity.accepts, eq_comm]
  have byKind : staticness.accepts m.isStatic = true ↔
      (staticness = .onType → m.isStatic = true) ∧
        (staticness = .onInstance → m.isStatic = false) := by
    cases staticness <;> simp [Staticness.accepts]
  rw [accepts, Bool.and_eq_true, Bool.and_eq_true, decide_eq_true_iff, byArity, byKind]
  constructor
  · rintro ⟨⟨sameName, sameArity⟩, ofType, ofInstance⟩
    exact ⟨sameName, sameArity, ofType, ofInstance⟩
  · rintro ⟨sameName, sameArity, ofType, ofInstance⟩
    exact ⟨⟨sameName, sameArity⟩, ofType, ofInstance⟩

/-- The class declares a method that the query asks for. -/
def IsDeclaredIn (q : MethodQuery) (c : ClassInfo) : Prop := ∃ m ∈ c.methods, q.Admits m

/-- The method is the first one of the class that the query asks for. -/
def IsFirstOf (q : MethodQuery) (c : ClassInfo) (m : Method) : Prop :=
  q.Admits m ∧ ∃ earlier later, c.methods = earlier ++ m :: later ∧ ∀ e ∈ earlier, ¬q.Admits e

/-- The class is the first one of a chain that declares a method that the query asks for, and the
method is the first such method of the class. -/
structure IsNearest (q : MethodQuery) (chain : List ClassInfo) (c : ClassInfo) (m : Method) :
    Prop where
  nearest : ∃ nearer farther, chain = nearer ++ c :: farther ∧ ∀ d ∈ nearer, ¬q.IsDeclaredIn d
  first : q.IsFirstOf c m

/-- The first method of a class that the query accepts, with the class. -/
def firstIn? (q : MethodQuery) (c : ClassInfo) : Option (ClassInfo × Method) :=
  (c.methods.find? q.accepts).map (c, ·)

variable {q : MethodQuery} {c d : ClassInfo} {m : Method}

theorem firstIn?_eq_none_iff : q.firstIn? c = none ↔ ¬q.IsDeclaredIn c := by
  simp [firstIn?, IsDeclaredIn, ← accepts_iff_admits]

theorem firstIn?_eq_some_iff : q.firstIn? d = some (c, m) ↔ d = c ∧ q.IsFirstOf c m := by
  rw [firstIn?, Option.map_eq_some_iff]
  simp only [List.find?_eq_some_iff_append, Bool.not_eq_true', Prod.mk.injEq, IsFirstOf,
    ← accepts_iff_admits, Bool.not_eq_true]
  constructor
  · rintro ⟨m, first, rfl, rfl⟩
    exact ⟨rfl, first⟩
  · rintro ⟨rfl, first⟩
    exact ⟨m, first, rfl, rfl⟩

/-- What is found first along a chain is the nearest declaration. -/
theorem findSome?_firstIn?_iff {chain : List ClassInfo} :
    chain.findSome? q.firstIn? = some (c, m) ↔ q.IsNearest chain c m := by
  rw [List.findSome?_eq_some_iff]
  simp only [firstIn?_eq_none_iff, firstIn?_eq_some_iff]
  constructor
  · rintro ⟨nearer, d, farther, rfl, ⟨rfl, first⟩, none⟩
    exact ⟨⟨nearer, farther, rfl, none⟩, first⟩
  · rintro ⟨⟨nearer, farther, rfl, none⟩, first⟩
    exact ⟨nearer, c, farther, rfl, ⟨rfl, first⟩, none⟩

end MethodQuery

/-! ## Methods along the chain -/

namespace TypeIndex

variable {t : TypeIndex}

/-- A walk meets no class twice, and none whose name was met before. -/
theorem SuperWalk.nodup {met : List String} {superName : Option String}
    {supers : List ClassInfo} (walk : SuperWalk t met superName supers) :
    (supers.map ClassInfo.name).Nodup ∧ ∀ c ∈ supers, c.name ∉ met := by
  induction walk with
  | top | metBefore | unknown => exact ⟨List.nodup_nil, nofun⟩
  | next new known walk ih =>
    obtain ⟨once, apart⟩ := ih
    have own := name_of_class? known
    refine ⟨List.nodup_cons.2 ⟨fun again => ?_, once⟩, List.forall_mem_cons.2 ⟨own ▸ new, ?_⟩⟩
    · obtain ⟨c, there, same⟩ := List.mem_map.1 again
      exact apart c there (List.mem_cons.2 (.inl (same.trans own)))
    · exact fun c there old => apart c there (List.mem_cons_of_mem _ old)

/-- The classes that a query looks at are those of the chain of the type, or the first of them if
it accepts no inherited methods. -/
theorem exists_superWalk_findMethod? (t : TypeIndex) (type : String) :
    ∃ chain, t.SuperWalk [] (some type) chain ∧ ∀ q : MethodQuery,
      t.findMethod? type q
        = (if q.inherited then chain else chain.take 1).findSome? q.firstIn? := by
  cases known : t.class? type with
  | none =>
    refine ⟨[], .unknown List.not_mem_nil known, fun q => ?_⟩
    rw [findMethod?, known, List.take_nil, ite_self]
    rfl
  | some c =>
    obtain ⟨supers, chain, walk⟩ := superWalk_hierarchy t c
    rw [name_of_class? known] at walk
    refine ⟨c :: supers, .next List.not_mem_nil known walk, fun q => ?_⟩
    rw [findMethod?, known, ← chain]
    rfl

/-- A property can be set if some class on the chain declares its setter, for instances and with one
argument. -/
theorem hasWritableProperty_iff (t : TypeIndex) (type property : String) :
    ∃ chain, t.SuperWalk [] (some type) chain ∧
      (t.hasWritableProperty type property = true ↔ ∃ c ∈ chain, ∃ m ∈ c.methods,
        m.name = setterName property ∧ m.arity = 1 ∧ m.isStatic = false) := by
  obtain ⟨chain, walk, finds⟩ := exists_superWalk_findMethod? t type
  have admits : ∀ m : Method,
      MethodQuery.Admits ⟨setterName property, .exactly 1, .onInstance, true⟩ m ↔
        m.name = setterName property ∧ m.arity = 1 ∧ m.isStatic = false := fun m =>
    ⟨fun h => ⟨h.name, h.arity 1 rfl, h.ofInstance rfl⟩,
      fun ⟨sameName, sameArity, own⟩ =>
        ⟨sameName, fun _ h => Arity.exactly.inj h ▸ sameArity, nofun, fun _ => own⟩⟩
  refine ⟨chain, walk, ?_⟩
  rw [hasWritableProperty, finds, if_pos rfl, List.isSome_findSome?, List.any_eq_true]
  refine exists_congr fun c => and_congr_right fun _ => ?_
  rw [Option.isSome_iff_ne_none, Ne, MethodQuery.firstIn?_eq_none_iff, not_not]
  exact exists_congr fun m => and_congr_right fun _ => admits m

/-- **Method lookup.**  From every type exactly one chain of super classes goes out, and it meets no
class twice.  A query that accepts inherited methods finds the nearest declaration on the chain; a
query that does not finds what the first class of the chain declares, which is also found with
inherited methods. -/
theorem findMethod?_iff_isNearest (t : TypeIndex) (type : String) (q : MethodQuery) :
    ∃ chain, t.SuperWalk [] (some type) chain ∧
      (∀ other, t.SuperWalk [] (some type) other → other = chain) ∧
      (chain.map ClassInfo.name).Nodup ∧
      (∀ c m, t.findMethod? type { q with inherited := true } = some (c, m) ↔
        q.IsNearest chain c m) ∧
      (∀ c m, t.findMethod? type { q with inherited := false } = some (c, m) ↔
        q.IsNearest (chain.take 1) c m) ∧
      ∀ found, t.findMethod? type { q with inherited := false } = some found →
        t.findMethod? type { q with inherited := true } = some found := by
  obtain ⟨chain, walk, finds⟩ := exists_superWalk_findMethod? t type
  have inherited : t.findMethod? type { q with inherited := true }
      = chain.findSome? q.firstIn? := finds _
  have own : t.findMethod? type { q with inherited := false }
      = (chain.take 1).findSome? q.firstIn? := finds _
  refine ⟨chain, walk, fun _ h => h.unique walk, walk.nodup.1, fun c m => ?_, fun c m => ?_,
    fun found h => ?_⟩
  · rw [inherited, MethodQuery.findSome?_firstIn?_iff]
  · rw [own, MethodQuery.findSome?_firstIn?_iff]
  · rw [own] at h
    rw [inherited, ← List.take_append_drop 1 chain, List.findSome?_append, h, Option.some_or]

/-! ### A method declared twice on a cycle -/

/-- Two classes that are super classes of each other and declare a method of one name. -/
def entangled : TypeIndex :=
  ⟨[{ name := "Service", superName := some "Base", methods := [⟨"create", 1, true⟩] },
    { name := "Base", superName := some "Service",
      methods := [⟨"create", 1, false⟩, ⟨"init", 0, false⟩] }]⟩

/-- The method of the super class is nearest for a query that does not accept the one of the class
itself; a query that does finds this one, with inherited methods as without. -/
theorem findMethod?_entangled :
    (∃ chain c m, entangled.SuperWalk [] (some "Service") chain ∧ c.name = "Base" ∧
      MethodQuery.IsNearest ⟨"create", .any, .onInstance, true⟩ chain c m) ∧
    ∃ found, entangled.findMethod? "Service" ⟨"create", .any, .any, false⟩ = some found ∧
      entangled.findMethod? "Service" ⟨"create", .any, .any, true⟩ = some found := by
  constructor
  · obtain ⟨chain, walk, -, -, nearest, -⟩ :=
      findMethod?_iff_isNearest entangled "Service" ⟨"create", .any, .onInstance, true⟩
    exact ⟨chain, _, _, walk, rfl, (nearest _ _).1 rfl⟩
  · obtain ⟨-, -, -, -, -, -, more⟩ :=
      findMethod?_iff_isNearest entangled "Service" ⟨"create", .any, .any, true⟩
    exact ⟨_, rfl, more _ rfl⟩

end TypeIndex

end BeanWiring
