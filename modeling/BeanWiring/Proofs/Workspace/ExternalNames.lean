/-
# External names

The name `/project/config` is taken apart in three ways: the model cuts it at the first slash after
the one it begins with, a project strips its own name from it, and everything else counts as plain.
Names are any texts, so the three can disagree: a project whose name has a slash is found by none of
the others, and a config whose name begins with a slash only by its external name.

Main statements:

* `externalConfig?_eq_some_iff` : which configs the model finds by an external name;
* `externalName_eq_iff` : when external names coincide;
* `externalName_roundTrip` : who finds a config of the model by its external name, and by its own.
-/
import BeanWiring.Proofs.Text.Searching
import BeanWiring.Proofs.Workspace.Managed

namespace BeanWiring

/-! ## Taking names apart -/

/-- Only texts that are joined without a slash in the first are taken apart again. -/
theorem splitExternal?_eq_some_iff {name project config : String} :
    splitExternal? name = some (project, config) ↔
      (project ≠ "" ∧ '/' ∉ project.toList ∧ config ≠ "") ∧ name = externalName project config := by
  constructor
  · intro split
    obtain ⟨nonempty, external⟩ := eq_externalName_of_splitExternal? split
    refine ⟨⟨nonempty, ?_⟩, external⟩
    unfold splitExternal? at split
    split at split
    · split at split
      · rename_i cut
        split at split
        · cases split
        · rename_i filled
          cases Option.some.inj split
          refine ⟨?_, fun empty => filled (.inr ?_)⟩
          · rw [String.toList_ofList]
            exact Text.notMem_of_cutAt? cut
          · simpa using congrArg String.toList empty
      · cases split
    · cases split
  · rintro ⟨⟨nonempty, whole, named⟩, rfl⟩
    exact splitExternal?_externalName nonempty named whole

/-- A project takes the external names of its own apart, and no others. -/
theorem localName?_eq_some_iff {project external own : String} :
    localName? project external = some own ↔ external = externalName project own := by
  refine ⟨eq_externalName_of_localName?, ?_⟩
  rintro rfl
  have stripped : Text.stripStart? ('/' :: (project.toList ++ ['/']))
      (externalName project own).toList = some own.toList :=
    Text.stripStart?_eq_some_iff.2 (toList_externalName project own)
  rw [localName?, stripped]
  exact congrArg some String.ofList_toList

theorem startsWith_externalName (project config : String) :
    Text.startsWith ['/'] (externalName project config).toList = true := by
  rw [Text.startsWith_iff, toList_externalName, List.cons_append]
  exact List.prefix_append ['/'] _

/-- Two texts that are joined at a slash come from the same parts, or one first part goes on after
the other where the slash of the other is. -/
theorem Text.append_slash_eq_iff {a b a' b' : List Char} :
    a ++ '/' :: b = a' ++ '/' :: b' ↔
      a = a' ∧ b = b' ∨ (∃ rest, a' = a ++ '/' :: rest ∧ b = rest ++ '/' :: b') ∨
        ∃ rest, a = a' ++ '/' :: rest ∧ b' = rest ++ '/' :: b := by
  constructor
  · intro same
    rcases List.append_eq_append_iff.1 same with ⟨more, longer, rest⟩ | ⟨more, longer, rest⟩
    · cases more with
      | nil => exact .inl ⟨by simpa using longer.symm, List.tail_eq_of_cons_eq rest⟩
      | cons d more =>
        obtain ⟨rfl, tail⟩ := List.cons.inj rest
        exact .inr (.inl ⟨more, longer, tail⟩)
    · cases more with
      | nil => exact .inl ⟨by simpa using longer, (List.tail_eq_of_cons_eq rest).symm⟩
      | cons d more =>
        obtain ⟨rfl, tail⟩ := List.cons.inj rest
        exact .inr (.inr ⟨more, longer, tail⟩)
  · rintro (⟨rfl, rfl⟩ | ⟨rest, rfl, rfl⟩ | ⟨rest, rfl, rfl⟩)
    · rfl
    · simp
    · simp

/-- External names coincide if their parts do, or if the first part of one goes on after that of the
other. -/
theorem externalName_eq_iff {project config project' config' : String} :
    externalName project config = externalName project' config' ↔
      project = project' ∧ config = config' ∨
      (∃ rest, project' = project ++ "/" ++ rest ∧ config = rest ++ "/" ++ config') ∨
      ∃ rest, project = project' ++ "/" ++ rest ∧ config' = rest ++ "/" ++ config := by
  have joined : ∀ a b c : String, a = b ++ "/" ++ c ↔ a.toList = b.toList ++ '/' :: c.toList := by
    intro a b c
    rw [← String.toList_inj]
    simp [String.toList_append]
  have texts : ∀ a b c d : List Char, (∃ rest : String, a = b ++ '/' :: rest.toList ∧
      c = rest.toList ++ '/' :: d) ↔ ∃ rest, a = b ++ '/' :: rest ∧ c = rest ++ '/' :: d := by
    intro a b c d
    constructor
    · rintro ⟨rest, parts⟩
      exact ⟨rest.toList, parts⟩
    · rintro ⟨rest, parts⟩
      exact ⟨String.ofList rest, by rwa [String.toList_ofList]⟩
  rw [← String.toList_inj, toList_externalName, toList_externalName]
  simp only [List.cons_append, List.append_assoc, List.nil_append, List.cons.injEq, true_and,
    Text.append_slash_eq_iff, String.toList_inj, joined, texts]

namespace Workspace

variable {σ : Type} {ws : Workspace σ} {p q : ProjectId} {c d : ConfigId}

/-! ## Who finds a config -/

/-- The name of a config outside its project. -/
def externalNameOf (ws : Workspace σ) (c : ConfigId) : String :=
  externalName (ws.project (ws.config c).project).name (ws.config c).name

/-- The external name of a config can be taken apart again: neither part is empty, and the first has
no slash. -/
def Addressable (ws : Workspace σ) (c : ConfigId) : Prop :=
  (ws.project (ws.config c).project).name ≠ "" ∧
    '/' ∉ (ws.project (ws.config c).project).name.toList ∧ (ws.config c).name ≠ ""

instance (ws : Workspace σ) (c : ConfigId) : Decidable (ws.Addressable c) :=
  inferInstanceAs (Decidable (_ ∧ _ ∧ _))

/-- The names of two configs overlap: the name of the second's project goes on with a slash after
that of the first's, and what comes then begins the name of the first. -/
def Overlaps (ws : Workspace σ) (c d : ConfigId) : Prop :=
  ∃ rest, (ws.project (ws.config d).project).name
      = (ws.project (ws.config c).project).name ++ "/" ++ rest ∧
    (ws.config c).name = rest ++ "/" ++ (ws.config d).name

/-- A config is found in a project by its name alone. -/
theorem Holds.configOf?_eq_some_iff (holds : ws.Holds) {name : String} :
    ws.configOf? p name = some c ↔ c ∈ ws.configsOf p ∧ (ws.config c).name = name := by
  rw [holds.configOf?, configsOf, List.mem_map]
  constructor
  · intro listed
    exact ⟨⟨_, listed, rfl⟩, (holds.own p _ listed).2.1⟩
  · rintro ⟨⟨entry, listed, rfl⟩, rfl⟩
    rw [(holds.own p entry listed).2.1]
    exact listed

section Rostered

variable (rostered : ws.Rostered) (orderly : ws.model.Orderly) (holds : ws.Holds)
include rostered orderly holds

/-- The model finds, by an external name, the config that has it, if the name can be taken apart. -/
theorem externalConfig?_eq_some_iff {name : String} :
    ws.externalConfig? name = some (q, d) ↔
      (ws.InModel q ∧ d ∈ ws.configsOf q ∧ ws.Addressable d) ∧ name = ws.externalNameOf d := by
  unfold externalConfig?
  simp only [Option.bind_eq_bind, Option.bind_eq_some_iff, Prod.exists, Option.pure_def,
    Option.some.injEq, Prod.mk.injEq, splitExternal?_eq_some_iff, holds.configOf?_eq_some_iff]
  constructor
  · rintro ⟨project, config, ⟨parts, external⟩, _, listed, _, ⟨held, rfl⟩, rfl, rfl⟩
    have entry := Keyed.mem_of_lookup listed
    have inside : ws.InModel _ := List.mem_map_of_mem entry
    obtain ⟨-, named, -⟩ := rostered.inModel _ entry
    have owner := holds.project_of_mem_configsOf held
    dsimp only at named
    subst named
    rw [Addressable, externalNameOf, owner]
    exact ⟨⟨inside, held, parts⟩, external⟩
  · rintro ⟨⟨inside, held, parts⟩, external⟩
    rw [Addressable, holds.project_of_mem_configsOf held] at parts
    rw [externalNameOf, holds.project_of_mem_configsOf held] at external
    have listed := rostered.lookup_name orderly inside
    exact ⟨_, _, ⟨parts, external⟩, q, listed, d, ⟨held, rfl⟩, rfl, rfl⟩

/-- The model gives a config back for its external name exactly if the name can be taken apart. -/
theorem findConfig?_externalNameOf_iff (inside : ws.InModel p) (held : c ∈ ws.configsOf p) :
    ws.findConfig? (ws.externalNameOf c) = some (p, c) ↔ ws.Addressable c := by
  have external : ws.externalConfig? (ws.externalNameOf c) = some (p, c) ↔
      (ws.InModel p ∧ c ∈ ws.configsOf p ∧ ws.Addressable c) ∧
        ws.externalNameOf c = ws.externalNameOf c :=
    externalConfig?_eq_some_iff rostered orderly holds
  rw [findConfig?]
  split
  · rw [external]
    exact ⟨fun found => found.1.2.2, fun parts => ⟨⟨inside, held, parts⟩, rfl⟩⟩
  · rename_i whole
    constructor
    · -- a config that is found under a plain name has that name, which is too long to be its own
      intro found
      obtain ⟨entry, -, named⟩ := List.exists_of_findSome?_eq_some found
      obtain ⟨d, named, same⟩ := Option.map_eq_some_iff.1 named
      cases same
      exact absurd (holds.configOf?_eq_some_iff.1 named).2.symm (externalName_ne _ _)
    · intro parts
      cases whole.symm.trans (splitExternal?_eq_some_iff.2 ⟨parts, rfl⟩)

omit rostered orderly in
/-- A project finds its own configs by their external names, whatever they are called. -/
theorem resolveConfig?_externalNameOf (held : c ∈ ws.configsOf p) :
    ws.resolveConfig? p (ws.externalNameOf c) = some c := by
  have own : localName? (ws.project p).name
      (externalName (ws.project (ws.config c).project).name (ws.config c).name)
        = some (ws.config c).name := by
    rw [holds.project_of_mem_configsOf held]
    exact localName?_eq_some_iff.2 rfl
  rw [resolveConfig?, externalNameOf, startsWith_externalName, own]
  exact holds.configOf?_eq_some_iff.2 ⟨held, rfl⟩

/-- Another project of the model asks the model, unless its own name fits. -/
theorem resolveConfig?_externalNameOf_iff (inside : ws.InModel p) (held : c ∈ ws.configsOf p)
    (inside' : ws.InModel q) (other : q ≠ p) :
    ws.resolveConfig? q (ws.externalNameOf c) = some c ↔
      ws.Addressable c ∧ ∀ own, ws.externalNameOf c ≠ externalName (ws.project q).name own := by
  obtain ⟨-, -, attached⟩ := rostered.inModel _ (rostered.entry_of_inModel inside')
  have slashed : Text.startsWith ['/'] (ws.externalNameOf c).toList = true :=
    startsWith_externalName _ _
  rw [resolveConfig?, slashed, attached]
  dsimp only at attached
  cases taken : localName? (ws.project q).name (ws.externalNameOf c) with
  | some own =>
    constructor
    · intro found
      have owner := holds.project_of_mem_configsOf (holds.configOf?_eq_some_iff.1 found).1
      exact absurd (owner.symm.trans (holds.project_of_mem_configsOf held)) other
    · intro free
      exact absurd (localName?_eq_some_iff.1 taken) (free.2 own)
  | none =>
    have free : ∀ own, ws.externalNameOf c ≠ externalName (ws.project q).name own := by
      intro own same
      cases taken.symm.trans (localName?_eq_some_iff.2 same)
    refine Iff.trans ?_ (and_iff_left free).symm
    constructor
    · intro found
      obtain ⟨⟨q', d⟩, found, rfl⟩ := Option.map_eq_some_iff.1 found
      exact ((externalConfig?_eq_some_iff rostered orderly holds).1 found).1.2.2
    · intro parts
      exact Option.map_eq_some_iff.2 ⟨(p, c),
        (externalConfig?_eq_some_iff rostered orderly holds).2 ⟨⟨inside, held, parts⟩, rfl⟩, rfl⟩

/-- A name with a slash in front stands for nothing but the config with this external name. -/
theorem eq_externalNameOf {name : String} (slashed : Text.startsWith ['/'] name.toList = true)
    (found : ws.resolveConfig? p name = some c) : name = ws.externalNameOf c := by
  rw [resolveConfig?, slashed, Bool.not_true, if_neg Bool.false_ne_true] at found
  split at found
  · rename_i own taken
    obtain ⟨held, rfl⟩ := holds.configOf?_eq_some_iff.1 found
    rw [externalNameOf, holds.project_of_mem_configsOf held]
    exact localName?_eq_some_iff.1 taken
  · split at found
    · obtain ⟨⟨q, d⟩, there, rfl⟩ := Option.map_eq_some_iff.1 found
      exact ((externalConfig?_eq_some_iff rostered orderly holds).1 there).2
    · cases found

/-- A project finds its own configs by their names, unless these begin with a slash. -/
theorem resolveConfig?_name_iff (held : c ∈ ws.configsOf p) :
    ws.resolveConfig? p (ws.config c).name = some c ↔
      Text.startsWith ['/'] (ws.config c).name.toList = false := by
  have plain := holds.configOf?_eq_some_iff.2 ⟨held, rfl⟩
  cases slashed : Text.startsWith ['/'] (ws.config c).name.toList with
  | false =>
    rw [resolveConfig?, slashed]
    exact iff_of_true plain rfl
  | true =>
    refine iff_of_false (fun found => ?_) Bool.true_eq_false.mp
    exact externalName_ne _ _ (eq_externalNameOf rostered orderly holds slashed found).symm

/-- Two configs of the model have one external name only if their names overlap. -/
theorem externalNameOf_eq_iff (inside : ws.InModel p) (held : c ∈ ws.configsOf p)
    (inside' : ws.InModel q) (held' : d ∈ ws.configsOf q) :
    ws.externalNameOf d = ws.externalNameOf c ↔
      (q = p ∧ d = c) ∨ ws.Overlaps d c ∨ ws.Overlaps c d := by
  rw [externalNameOf, externalNameOf, externalName_eq_iff, Overlaps, Overlaps]
  refine or_congr_left ?_
  rw [holds.project_of_mem_configsOf held, holds.project_of_mem_configsOf held']
  constructor
  · rintro ⟨project, config⟩
    have same := rostered.eq_of_name orderly inside' inside project
    subst same
    refine ⟨rfl, Option.some.inj ?_⟩
    rw [← holds.configOf?_eq_some_iff.2 ⟨held', rfl⟩, config]
    exact holds.configOf?_eq_some_iff.2 ⟨held, rfl⟩
  · rintro ⟨rfl, rfl⟩
    exact ⟨rfl, rfl⟩

end Rostered

/-- **External names.**  A config of the model is found by its external name exactly if neither part
of the name is empty and the project has no slash in its name.  Its own project finds it by the
name in any case, and another project of the model if the config can be found at all and the name
does not begin like one of its own.  By its own name the config is found in its project, unless the
name begins with a slash.  And two configs of the model share an external name only if the project
of one has a slash in its name. -/
theorem externalName_roundTrip [DocumentSource σ] [FiniteSource σ] (managed : Managed ws)
    (inside : ws.InModel p) (held : c ∈ ws.configsOf p) :
    (ws.findConfig? (ws.externalNameOf c) = some (p, c) ↔ ws.Addressable c) ∧
      ws.resolveConfig? p (ws.externalNameOf c) = some c ∧
      (∀ q, ws.InModel q → q ≠ p →
        (ws.resolveConfig? q (ws.externalNameOf c) = some c ↔ ws.Addressable c ∧
          ∀ own, ws.externalNameOf c ≠ externalName (ws.project q).name own)) ∧
      (ws.resolveConfig? p (ws.config c).name = some c ↔
        Text.startsWith ['/'] (ws.config c).name.toList = false) ∧
      ∀ q, ws.InModel q → ∀ d ∈ ws.configsOf q,
        (ws.externalNameOf d = ws.externalNameOf c ↔
          (q = p ∧ d = c) ∨ ws.Overlaps d c ∨ ws.Overlaps c d) := by
  have rostered := managed.rostered
  have orderly := managed.reachable.orderly
  have holds := managed.reachable.freely.holds
  refine ⟨?model, ?own, ?others, ?name, ?shared⟩
  case model => exact findConfig?_externalNameOf_iff rostered orderly holds inside held
  case own => exact resolveConfig?_externalNameOf holds held
  case others =>
    intro q inside' other
    exact resolveConfig?_externalNameOf_iff rostered orderly holds inside held inside' other
  case name => exact resolveConfig?_name_iff rostered orderly holds held
  case shared =>
    intro q inside' d held'
    exact externalNameOf_eq_iff rostered orderly holds inside held inside' held'

/-! ### Projects with a slash in their names -/

/-- Two projects, of which the second has the name of the first in its own.  A config of the first
is called as if it were one of the second, and another one as if it were of neither. -/
def nested : Workspace DocumentStore :=
  let ws : Workspace DocumentStore := { source := {} }
  let ws := (ws.useProject { name := "demo" }).2
  let ws := (ws.useProject { name := "demo/x" }).2
  let ws := (ws.addConfigs ⟨0⟩ ["x/b.xml", "/d.xml"]).addConfigs ⟨1⟩ ["b.xml"]
  ((ws.carryOut .openModel).carryOut (.addProject ⟨0⟩)).carryOut (.addProject ⟨1⟩)

theorem managed_nested : Managed nested := by
  have empty : Managed ({ source := {} } : Workspace DocumentStore) := .start _
  have outer := (ManagementStep.useProject _ "demo" .markup {} {}).managed empty fun _ => .inl
  have inner := (ManagementStep.useProject _ "demo/x" .markup {} {}).managed outer fun _ => .inl
  have first := (ManagementStep.addConfigs _ ⟨0⟩ ["x/b.xml", "/d.xml"]).managed inner
    fun _ => .inl
  have both := (ManagementStep.addConfigs _ ⟨1⟩ ["b.xml"]).managed first fun _ => .inl
  have opened := both.carryOut .openModel fun _ same => nomatch same
  have added := opened.carryOut (.addProject ⟨0⟩) fun _ same => by
    cases same
    decide
  exact added.carryOut (.addProject ⟨1⟩) fun _ same => by
    cases same
    decide

/-- The model finds the config of the first project, which has its external name in common with that
of the second. -/
theorem findConfig?_nested :
    nested.findConfig? "/demo/x/b.xml" = some (⟨0⟩, ⟨0⟩) ∧
      nested.resolveConfig? ⟨1⟩ "/demo/x/b.xml" ≠ some ⟨0⟩ ∧
      nested.externalNameOf ⟨2⟩ = nested.externalNameOf ⟨0⟩ := by
  obtain ⟨model, -, others, -, shared⟩ := externalName_roundTrip managed_nested
    (p := ⟨0⟩) (c := ⟨0⟩) (by decide +kernel) (by decide +kernel)
  have external : nested.externalNameOf ⟨0⟩ = "/demo/x/b.xml" := by decide +kernel
  rw [external] at model others shared
  refine ⟨model.2 (by decide +kernel), fun found => ?_, ?_⟩
  · have inside : nested.InModel ⟨1⟩ := by decide +kernel
    have own : "/demo/x/b.xml" = externalName (nested.project ⟨1⟩).name "b.xml" := by
      decide +kernel
    exact ((others ⟨1⟩ inside (by decide)).1 found).2 "b.xml" own
  · rw [external]
    exact (shared ⟨1⟩ (by decide +kernel) ⟨2⟩ (by decide +kernel)).2
      (.inr (.inr ⟨"x", by decide +kernel⟩))

/-- External names do not always lead back.  The config of the second project is not found by its
external name, nor does the first project find it; both have the name in common with another config;
and a config whose name begins with a slash is not found by its name in its own project. -/
theorem externalName_nested_ne :
    Managed nested ∧ nested.model.isOpen = true ∧
      (nested.InModel ⟨1⟩ ∧ ⟨2⟩ ∈ nested.configsOf ⟨1⟩ ∧
        nested.findConfig? (nested.externalNameOf ⟨2⟩) = some (⟨0⟩, ⟨0⟩) ∧
        nested.resolveConfig? ⟨0⟩ (nested.externalNameOf ⟨2⟩) = some ⟨0⟩) ∧
      nested.InModel ⟨0⟩ ∧ ⟨1⟩ ∈ nested.configsOf ⟨0⟩ ∧
        nested.resolveConfig? ⟨0⟩ (nested.config ⟨1⟩).name = none :=
  ⟨managed_nested, by decide +kernel⟩

end Workspace

end BeanWiring
