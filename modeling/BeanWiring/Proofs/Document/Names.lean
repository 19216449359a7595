/-
# Names of the beans of a document

Bean elements that are not inside a value are named one after the other, in the order of the
document: at the top level, in nested beans elements, and in components at any depth.  A made-up
name is new, a name that an element declares may not be.  Exactly the declared names that occurred
before are reported, once for each time, and otherwise the names of a document are distinct.

Main statements:

* `freshName_spec` : a made-up name is the first candidate that is not in use;
* `names_readTopLevel` : what is named and reported inside a beans element;
* `reportedNames_eventsOfRoot` : what a document reports.
-/
import Mathlib.Data.List.Nodup
import Mathlib.Data.List.Perm.Subperm
import BeanWiring.Proofs.Document.Remarks

namespace BeanWiring

open Markup

/-! ## Names that events tell of -/

/-- The names of a bean. -/
def Declaration.names (d : Declaration) : List String := d.name :: d.aliases

mutual

/-- All beans that an element of a foreign namespace declares, its own before those inside. -/
def ComponentDeclaration.allBeans : ComponentDeclaration → List Declaration
  | ⟨_, _, _, beans, nested, _⟩ => beans ++ beansOfDeclared nested

/-- All beans that a list of such elements declares. -/
def beansOfDeclared : List ComponentDeclaration → List Declaration
  | [] => []
  | c :: cs => c.allBeans ++ beansOfDeclared cs

end

/-- The beans that an event tells of, those inside of values apart. -/
def Event.beans : Event → List Declaration
  | .bean d => [d]
  | .component c => c.allBeans
  | _ => []

/-- The name that an event reports as in use. -/
def Event.reportedName? : Event → Option String
  | .problem p => p.reportedName?
  | _ => none

/-- The names of the beans that events tell of. -/
def declaredNames (events : List Event) : List String :=
  events.flatMap fun event => event.beans.flatMap Declaration.names

/-- The names that events report as in use, in order. -/
def reportedNames (events : List Event) : List String :=
  events.filterMap Event.reportedName?

/-- The names that events declare come one event after the other. -/
theorem declaredNames_append (events more : List Event) :
    declaredNames (events ++ more) = declaredNames events ++ declaredNames more :=
  List.flatMap_append

/-- So do the names that events report. -/
theorem reportedNames_append (events more : List Event) :
    reportedNames (events ++ more) = reportedNames events ++ reportedNames more :=
  List.filterMap_append

/-! ## Repetitions -/

/-- The names that repeat one of those before, or an earlier one of their own list. -/
def repeats (before : List String) : List String → List String
  | [] => []
  | name :: rest =>
    if name ∈ before then name :: repeats (before ++ [name]) rest
    else repeats (before ++ [name]) rest

section Repeats

variable {before before' names : List String} {name : String}

/-- It matters which names came before, and neither how often nor in which order. -/
theorem repeats_congr (same : ∀ n, n ∈ before ↔ n ∈ before') (names : List String) :
    repeats before names = repeats before' names := by
  induction names generalizing before before' with
  | nil => rfl
  | cons name rest ih =>
    have same' : ∀ n, n ∈ before ++ [name] ↔ n ∈ before' ++ [name] := fun n => by
      rw [List.mem_append, List.mem_append, same n]
    rw [repeats, repeats, ih same']
    simp only [same name]

/-- Names repeat those before them, also those of the part before. -/
theorem repeats_append (before names more : List String) :
    repeats before (names ++ more) = repeats before names ++ repeats (before ++ names) more := by
  induction names generalizing before with
  | nil => rw [List.nil_append, List.append_nil, repeats, List.nil_append]
  | cons name rest ih =>
    rw [List.cons_append, repeats, repeats, ih, List.append_assoc, List.singleton_append]
    split
    · rfl
    · rfl

/-- A name is repeated if it came before, or comes twice. -/
theorem mem_repeats : name ∈ repeats before names ↔
    name ∈ before ∧ name ∈ names ∨ 2 ≤ names.count name := by
  induction names generalizing before with
  | nil => simp [repeats]
  | cons first rest ih =>
    have later : name ∈ repeats (before ++ [first]) rest ↔
        (name ∈ before ∨ name = first) ∧ name ∈ rest ∨ 2 ≤ rest.count name := by
      rw [ih, List.mem_append, List.mem_singleton]
    rw [repeats, List.count_cons, List.mem_cons]
    -- Only where the first name is the one in question, it counts for what follows.
    by_cases here : name = first
    · subst here
      have occurs : name ∈ rest ↔ 1 ≤ rest.count name := List.one_le_count_iff.symm
      split
      · rename_i known
        simp [known]
      · rename_i unknown
        rw [later]
        simp only [unknown, beq_self_eq_true, if_true, true_or, or_true, true_and, false_and,
          false_or, occurs]
        omega
    · have other : (first == name) = false := beq_eq_false_iff_ne.2 (Ne.symm here)
      have same : name ∈ (if first ∈ before then first :: repeats (before ++ [first]) rest
          else repeats (before ++ [first]) rest) ↔ name ∈ repeats (before ++ [first]) rest := by
        split
        · rw [List.mem_cons, or_iff_right here]
        · rfl
      rw [same, later, other]
      simp [here]

/-- Nothing repeats exactly if the names are distinct. -/
theorem repeats_eq_nil_iff : repeats [] names = [] ↔ names.Nodup := by
  rw [List.nodup_iff_count_le_one, List.eq_nil_iff_forall_not_mem]
  refine forall_congr' fun name => ?_
  rw [mem_repeats]
  simp only [List.not_mem_nil, false_and, false_or]
  omega

example : repeats [] ["a", "b", "a", "c", "a", "c"] = ["a", "a", "c"] := by decide

end Repeats

namespace Document

/-! ## Made-up names -/

/-- Different numbers make different names. -/
theorem numberedName_injective (base : String) : Function.Injective (numberedName base) := by
  intro m n same
  have digits : Nat.toDigits 10 m = Nat.toDigits 10 n := by
    have chars := congrArg String.toList same
    simp only [numberedName, String.toList_append, Nat.toString_eq_ofList_toDigits,
      String.toList_ofList] at chars
    exact List.append_cancel_left chars
  have read := congrArg (Nat.ofDigitChars 10 · 0) digits
  simpa using read

/-- A made-up name is the first candidate that is not in use, and there is always one. -/
theorem freshName_spec (base : String) (used : List String) :
    ∃ n ≤ used.length, freshName base used = numberedName base n ∧ numberedName base n ∉ used ∧
      ∀ k < n, numberedName base k ∈ used := by
  have found : ∃ n, (List.range (used.length + 1)).find? (fun n => numberedName base n ∉ used)
      = some n := by
    by_contra none
    -- Otherwise more candidates would be in use than there are names in use.
    have all : (List.range (used.length + 1)).map (numberedName base) ⊆ used := by
      intro name listed
      obtain ⟨n, within, rfl⟩ := List.mem_map.1 listed
      by_contra free
      have some : ((List.range (used.length + 1)).find?
          fun n => numberedName base n ∉ used).isSome :=
        List.find?_isSome.2 ⟨n, within, decide_eq_true free⟩
      exact none (Option.isSome_iff_exists.1 some)
    have distinct : ((List.range (used.length + 1)).map (numberedName base)).Nodup :=
      List.nodup_range.map (numberedName_injective base)
    have le := (List.Nodup.subperm distinct all).length_le
    rw [List.length_map, List.length_range] at le
    omega
  obtain ⟨n, first⟩ := found
  obtain ⟨free, within, least⟩ := List.find?_range_eq_some.1 first
  refine ⟨n, Nat.le_of_lt_succ (List.mem_range.1 within), ?_, of_decide_eq_true free,
    fun k before => by simpa using least k before⟩
  rw [freshName, List.find?_map]
  have same : ((fun name => decide (name ∉ used)) ∘ numberedName base)
      = fun n => decide (numberedName base n ∉ used) := rfl
  rw [same, first]
  rfl

example : freshName "C" ["C#1", "a", "C#0"] = "C#2" := by decide

/-! ## Naming beans -/

section Naming

/-- The names that an element lists for its bean. -/
def listedNames (e : Element) : List String :=
  ((e.attribute? "name").map splitNames).getD []

variable (resource : String)

/-- The names that an element gives to its bean where others have been given before: its `id`, the
names that it lists, or else the first candidate for a made-up name that is not among the others. -/
inductive GivesNames (before : List String) (e : Element) : List String → Prop
  | byId {id : String} (there : e.filledAttribute? "id" = some id) :
      GivesNames before e (id :: listedNames e)
  | byList (noId : e.filledAttribute? "id" = none) {name : String} {rest : List String}
      (listed : listedNames e = name :: rest) : GivesNames before e (name :: rest)
  | madeUp (noId : e.filledAttribute? "id" = none) (unlisted : listedNames e = []) {n : Nat}
      (new : numberedName (nameBase (attributesDefinition resource e)) n ∉ before)
      (least : ∀ k < n, numberedName (nameBase (attributesDefinition resource e)) k ∈ before) :
      GivesNames before e [numberedName (nameBase (attributesDefinition resource e)) n]

/-- The names that elements give to their beans one after the other. -/
inductive NamesGiven : (before : List String) → List Element → List String → Prop
  | nil (before : List String) : NamesGiven before [] []
  | cons {before names given : List String} {e : Element} {es : List Element}
      (first : GivesNames resource before e names) (rest : NamesGiven (before ++ names) es given) :
      NamesGiven before (e :: es) (names ++ given)

end Naming

/-- The bean elements among the children of a component, and in the components inside of it, in
document order. -/
def beansWithin : List Element → List Element
  | [] => []
  | e@⟨_, _, _, children, _, _, _⟩ :: rest =>
    (if isBeansElement "bean" e then [e]
      else if !inBeansNamespace e then beansWithin children else []) ++ beansWithin rest

/-- The bean elements inside of a beans element that are not inside of a value, in document
order. -/
def standingBeans : List Element → List Element
  | [] => []
  | e@⟨_, _, _, children, _, _, _⟩ :: rest =>
    (if !inBeansNamespace e then beansWithin children
      else if e.localName = "bean" then [e]
      else if e.localName = "beans" then standingBeans children else []) ++ standingBeans rest

section Given

variable {resource : String} {before before' given given' : List String} {es es' : List Element}

/-- What was given before matters only as a set. -/
theorem GivesNames.congr {e : Element} (same : ∀ n, n ∈ before ↔ n ∈ before')
    (h : GivesNames resource before e given) : GivesNames resource before' e given := by
  cases h with
  | byId there => exact .byId there
  | byList noId listed => exact .byList noId listed
  | madeUp noId unlisted new least =>
    exact .madeUp noId unlisted (fun known => new ((same _).2 known))
      fun k less => (same _).1 (least k less)

/-- What is given depends on which names came before, not on how often or in which order. -/
theorem NamesGiven.congr (same : ∀ n, n ∈ before ↔ n ∈ before')
    (h : NamesGiven resource before es given) : NamesGiven resource before' es given := by
  induction h generalizing before' with
  | nil => exact .nil before'
  | cons first rest ih =>
    refine .cons (first.congr same) (ih fun n => ?_)
    rw [List.mem_append, List.mem_append, same n]

/-- Elements are given names one after the other, with those given before in mind. -/
theorem NamesGiven.append (h : NamesGiven resource before es given)
    (h' : NamesGiven resource (before ++ given) es' given') :
    NamesGiven resource before (es ++ es') (given ++ given') := by
  induction h with
  | nil before => rwa [List.append_nil] at h'
  | @cons before names given e es first rest ih =>
    rw [List.cons_append, List.append_assoc]
    exact .cons first (ih (by rwa [List.append_assoc]))

theorem NamesGiven.single {e : Element} (h : GivesNames resource before e given) :
    NamesGiven resource before [e] given := by
  have only := NamesGiven.cons h (.nil _)
  rwa [List.append_nil] at only

/-- The names that an element is given are determined. -/
theorem GivesNames.unique {e : Element} (h : GivesNames resource before e given)
    (h' : GivesNames resource before e given') : given = given' := by
  cases h with
  | @byId id there =>
    cases h' with
    | byId there' => rw [Option.some.inj (there.symm.trans there')]
    | byList noId => cases noId.symm.trans there
    | madeUp noId => cases noId.symm.trans there
  | byList noId listed =>
    cases h' with
    | byId there => cases noId.symm.trans there
    | byList _ listed' => exact listed.symm.trans listed'
    | madeUp _ unlisted => cases listed.symm.trans unlisted
  | @madeUp noId unlisted n new least =>
    cases h' with
    | byId there => cases noId.symm.trans there
    | byList _ listed => cases listed.symm.trans unlisted
    | @madeUp _ _ k new' least' =>
      have same : n = k := le_antisymm (not_lt.1 fun less => new' (least k less))
        (not_lt.1 fun less => new (least' n less))
      rw [same]

/-- The names that elements give are determined by those given before. -/
theorem NamesGiven.unique (h : NamesGiven resource before es given)
    (h' : NamesGiven resource before es given') : given = given' := by
  induction h generalizing given' with
  | nil => cases h'; rfl
  | cons first rest ih =>
    cases h' with
    | cons first' rest' =>
      obtain rfl := first.unique first'
      rw [ih rest']

end Given

/-! ## Readings that name beans -/

/-- From one reading to another, names were given, and names of beans were told of.  Nothing ended
the document. -/
structure Gives (r r' : Reading) (given declared : List String) : Prop where
  events : ∃ more, r'.events = r.events ++ more ∧ reportedNames more = repeats r.used given ∧
    declaredNames more = declared ∧ ∀ p, .fatal p ∉ more
  used : ∀ n, n ∈ r'.used ↔ n ∈ r.used ∨ n ∈ given

section Readings

variable {r r' r'' : Reading} {given given' declared declared' : List String}

/-- Where nothing is done, nothing is given and nothing declared. -/
theorem Gives.refl (r : Reading) : Gives r r [] [] :=
  ⟨⟨[], (List.append_nil _).symm, rfl, rfl, fun _ => List.not_mem_nil⟩, fun n => by simp⟩

/-- What two steps give and declare, they give and declare one after the other. -/
theorem Gives.trans (h : Gives r r' given declared) (h' : Gives r' r'' given' declared') :
    Gives r r'' (given ++ given') (declared ++ declared') := by
  obtain ⟨more, events, reported, named, goesOn⟩ := h.events
  obtain ⟨more', events', reported', named', goesOn'⟩ := h'.events
  refine ⟨⟨more ++ more', ?_, ?_, ?_, fun p ends => ?_⟩, fun n => ?_⟩
  · rw [events', events, List.append_assoc]
  · -- What the first part gave is in use in the second.
    rw [reportedNames_append, reported, reported', repeats_append]
    refine congrArg (repeats r.used given ++ ·) (repeats_congr (fun n => ?_) given')
    rw [h.used n, List.mem_append]
  · rw [declaredNames_append, named, named']
  · exact (List.mem_append.1 ends).elim (goesOn p) (goesOn' p)
  · rw [h'.used n, h.used n, List.mem_append, or_assoc]

/-- An event that neither reports a name nor ends the document. -/
def IsSilent : Event → Prop
  | .problem p => p.reportedName? = none
  | .fatal _ => False
  | _ => True

/-- A silent event reports no name. -/
theorem IsSilent.reportedName? {event : Event} (silent : IsSilent event) :
    event.reportedName? = none := by
  cases event with
  | problem p => exact silent
  | _ => rfl

/-- A silent event gives no name, and declares what it says. -/
theorem gives_emit {event : Event} (silent : IsSilent event) (r : Reading) :
    Gives r ((emit event).run r).2 [] (declaredNames [event]) := by
  refine ⟨⟨[event], rfl, ?_, rfl, fun p ends => ?_⟩, fun n => (or_iff_left List.not_mem_nil).symm⟩
  · rw [reportedNames, List.filterMap_cons_none silent.reportedName?]
    rfl
  · rw [← List.mem_singleton.1 ends] at silent
    exact silent

/-- A name is taken into use, and reported if it was in use before. -/
theorem gives_claimName (resource : String) (e : Element) (name : String) (r : Reading) :
    Gives r ((claimName resource e name).run r).2 [name] [] := by
  have run : (claimName resource e name).run r
      = (if name ∈ r.used then reportError resource e (usedMessage name)
        else modify fun r => { r with used := r.used ++ [name] }).run r := rfl
  rw [run]
  split
  · rename_i known
    refine ⟨⟨_, rfl, ?_, rfl, fun p ends => by cases List.mem_singleton.1 ends⟩, fun n => ?_⟩
    · rw [repeats, if_pos known]
      exact List.filterMap_cons_some (Problem.reportedName?_eq_some_iff.2 ⟨rfl, rfl⟩)
    · rw [List.mem_singleton]
      exact ⟨.inl, fun h => h.elim id fun same => same ▸ known⟩
  · rename_i unknown
    refine ⟨⟨[], (List.append_nil _).symm, ?_, rfl, fun _ => List.not_mem_nil⟩,
      fun n => List.mem_append⟩
    rw [repeats, if_neg unknown]
    rfl

/-- Claiming names gives them, whether they were used or not. -/
theorem gives_claimNames (resource : String) (e : Element) (names : List String) (r : Reading) :
    Gives r ((claimNames resource e names).run r).2 names [] := by
  induction names generalizing r with
  | nil => exact Gives.refl r
  | cons name names ih => exact (gives_claimName resource e name r).trans (ih _)

/-- Remarks give no names. -/
theorem Gives.of_remarks {remarks : List Problem} (all : ∀ p ∈ remarks, IsRemark p.message) :
    Gives r ⟨r.events ++ remarks.map .problem, r.used⟩ [] [] := by
  refine ⟨⟨remarks.map .problem, rfl, ?_, ?_, fun p => by simp⟩, fun n => by simp⟩
  · refine List.filterMap_eq_nil_iff.2 fun event listed => ?_
    obtain ⟨p, there, rfl⟩ := List.mem_map.1 listed
    exact (all p there).reportedName?
  · refine List.flatMap_eq_nil_iff.2 fun event listed => ?_
    obtain ⟨p, there, rfl⟩ := List.mem_map.1 listed
    rfl

end Readings

section Readers

variable {A B : Type} {resource : String} {es es' : List Element}

/-- A reader that names the beans of elements in order.  Its result, the names given, and the names
told of in events are related by `post`. -/
def Names (resource : String) (es : List Element)
    (post : A → (given declared : List String) → Prop) (m : Reader A) : Prop :=
  ∀ r, ∃ given declared, NamesGiven resource r.used es given ∧
    Gives r (m.run r).2 given declared ∧ post (m.run r).1 given declared

/-- What a reader and those after it give, they give one after the other. -/
theorem Names.bind {post : A → List String → List String → Prop}
    {post' : B → List String → List String → Prop} {m : Reader A} {f : A → Reader B}
    (first : Names resource es post m)
    (further : ∀ a given declared, post a given declared →
      Names resource es' (fun b given' declared' =>
        post' b (given ++ given') (declared ++ declared')) (f a)) :
    Names resource (es ++ es') post' (m >>= f) := by
  intro r
  obtain ⟨given, declared, named, gives, h⟩ := first r
  obtain ⟨given', declared', named', gives', h'⟩ := further _ given declared h (m.run r).2
  refine ⟨given ++ given', declared ++ declared', named.append (named'.congr fun n => ?_),
    gives.trans gives', h'⟩
  rw [gives.used n, List.mem_append]

theorem Names.pure {post : A → List String → List String → Prop} {a : A} (h : post a [] []) :
    Names resource [] post (pure a) := fun r =>
  ⟨[], [], .nil _, .refl r, h⟩

/-- A result may be turned into another one. -/
theorem Names.result {post : A → List String → List String → Prop}
    {post' : B → List String → List String → Prop} {m : Reader A} {f : A → B}
    (first : Names resource es post m)
    (turns : ∀ a given declared, post a given declared → post' (f a) given declared) :
    Names resource es post' (m >>= fun a => Pure.pure (f a)) := by
  intro r
  obtain ⟨given, declared, named, gives, h⟩ := first r
  exact ⟨given, declared, named, gives, turns _ _ _ h⟩

/-- More may be known of the names that are given. -/
theorem Names.mono {post post' : A → List String → List String → Prop} {m : Reader A}
    (h : Names resource es post m)
    (turns : ∀ a given declared, post a given declared → post' a given declared) :
    Names resource es post' m := by
  intro r
  obtain ⟨given, declared, named, gives, ends⟩ := h r
  exact ⟨given, declared, named, gives, turns _ _ _ ends⟩

/-- A reader that only remarks gives no names. -/
theorem Remarks.names {good : A → Prop} {m : Reader A} (h : Remarks good m) :
    Names resource [] (fun a given declared => good a ∧ given = [] ∧ declared = []) m := by
  intro r
  obtain ⟨ends, remarks, all, run⟩ := h r
  refine ⟨[], [], .nil _, ?_, ends, rfl, rfl⟩
  rw [run]
  exact .of_remarks all

/-- So does one that emits a silent event. -/
theorem names_emit {event : Event} (silent : IsSilent event) :
    Names resource [] (fun _ given declared => given = [] ∧ declared = declaredNames [event])
      (emit event) := fun r =>
  ⟨[], _, .nil _, gives_emit silent r, rfl, rfl⟩

/-- A reader that names no beans, and tells of none. -/
abbrev NamesNothing (resource : String) (m : Reader A) : Prop :=
  Names resource [] (fun _ given declared => given = [] ∧ declared = []) m

theorem Remarks.namesNothing {good : A → Prop} {m : Reader A} (h : Remarks good m) :
    NamesNothing resource m :=
  h.names.mono fun _ _ _ named => named.2

/-- A reader whose events tell of the names that elements give. -/
abbrev TellsNames (resource : String) (es : List Element) (m : Reader A) : Prop :=
  Names resource es (fun _ given declared => declared.Perm given) m

theorem Names.tells {m : Reader A} (h : NamesNothing resource m) : TellsNames resource [] m :=
  h.mono fun _ _ _ named => by rw [named.1, named.2]

/-- One reader after the other tells the names of their elements in order. -/
theorem Names.followedBy {m : Reader A} {f : A → Reader B} (first : TellsNames resource es m)
    (further : ∀ a, TellsNames resource es' (f a)) : TellsNames resource (es ++ es') (m >>= f) :=
  first.bind fun a _ _ perm => (further a).mono fun _ _ _ perm' => perm.append perm'

/-- What is read may be told of before reading goes on. -/
theorem Names.tell {m : Reader A} {tell : A → Event} {next : Reader B}
    (silent : ∀ a, IsSilent (tell a))
    (first : Names resource es (fun a given declared =>
      (declaredNames [tell a]).Perm given ∧ declared = []) m)
    (further : TellsNames resource es' next) :
    TellsNames resource (es ++ es') (m >>= fun a => emit (tell a) >>= fun _ => next) := by
  refine first.bind fun a given declared named => ?_
  obtain ⟨perm, rfl⟩ := named
  have emits : Names resource [] (fun _ given declared => given = [] ∧
      declared = declaredNames [tell a]) (emit (tell a)) := names_emit (silent a)
  refine emits.bind fun _ given' declared' told => ?_
  obtain ⟨rfl, rfl⟩ := told
  exact further.mono fun _ _ _ perm' => perm.append perm'

end Readers

/-! ## Beans, components and documents -/

section Documents

variable (resource : String)

/-- A bean element gives its names, and only reports those in use. -/
theorem names_readBean (e : Element) : Names resource [e]
    (fun d given declared => given = d.names ∧ declared = []) (readBean resource e) := by
  unfold readBean
  refine Names.bind (remarks_readParts resource (attributesDefinition resource e) e.children).names
    fun d given declared h r => ?_
  obtain ⟨base, rfl, rfl⟩ := h
  -- Whatever the names are, they are claimed in order.
  have claims : ∀ name aliases, GivesNames resource r.used e (name :: aliases) →
      ((nameBean resource false e d).run r)
        = (⟨name, aliases, d⟩, ((claimNames resource e (name :: aliases)).run r).2) →
      ∃ given declared, NamesGiven resource r.used [e] given ∧
        Gives r ((nameBean resource false e d).run r).2 given declared ∧
        [] ++ given = ((nameBean resource false e d).run r).1.names ∧ [] ++ declared = [] := by
    intro name aliases names run
    rw [run]
    exact ⟨_, _, .single names, gives_claimNames resource e (name :: aliases) r, rfl, rfl⟩
  cases there : e.filledAttribute? "id" with
  | some id =>
    refine claims id (listedNames e) (.byId there) ?_
    unfold nameBean
    rw [there]
    rfl
  | none =>
    cases listed : listedNames e with
    | cons name rest =>
      refine claims name rest (.byList there listed) ?_
      have listed' : ((e.attribute? "name").map splitNames).getD [] = name :: rest := listed
      unfold nameBean
      rw [there, listed']
      rfl
    | nil =>
      obtain ⟨n, -, fresh, new, least⟩ := freshName_spec (nameBase d) r.used
      refine claims (freshName (nameBase d) r.used) [] ?_ ?_
      · rw [fresh]
        rw [base] at new least ⊢
        exact .madeUp there listed new least
      · have listed' : ((e.attribute? "name").map splitNames).getD [] = [] := listed
        unfold nameBean
        rw [there, listed']
        rfl

mutual

/-- A component names the beans inside of it. -/
theorem names_readComponent : (e : Element) → Names resource (beansWithin e.children)
    (fun c given declared => (c.allBeans.flatMap Declaration.names).Perm given ∧ declared = [])
    (readComponent resource e)
  | ⟨a, b, c, children, f, g, h⟩ => by
    rw [readComponent]
    dsimp only
    refine (names_readMembers children).result fun m given declared named => ?_
    exact named

theorem names_readMembers : (es : List Element) → Names resource (beansWithin es)
    (fun m given declared =>
      ((m.1 ++ beansOfDeclared m.2).flatMap Declaration.names).Perm given ∧ declared = [])
    (readMembers resource es)
  | [] => by
    rw [readMembers, beansWithin]
    exact .pure ⟨.nil, rfl⟩
  | ⟨a, b, c, children, f, g, h⟩ :: rest => by
    have inside := names_readComponent ⟨a, b, c, children, f, g, h⟩
    dsimp only at inside
    rw [readMembers, beansWithin]
    generalize (⟨a, b, c, children, f, g, h⟩ : Element) = e at inside ⊢
    split
    · refine (names_readBean resource e).bind fun d given declared named => ?_
      obtain ⟨rfl, rfl⟩ := named
      refine (names_readMembers rest).result fun m given declared named => ?_
      obtain ⟨perm, rfl⟩ := named
      exact ⟨perm.append_left d.names, rfl⟩
    split
    · refine inside.bind fun c given declared named => ?_
      obtain ⟨own, rfl⟩ := named
      refine (names_readMembers rest).result fun m given declared named => ?_
      obtain ⟨perm, rfl⟩ := named
      -- The beans of the component come before those after it, but among the nested ones.
      have moved : (m.1 ++ (c.allBeans ++ beansOfDeclared m.2)).Perm
          (c.allBeans ++ (m.1 ++ beansOfDeclared m.2)) := List.perm_append_comm_assoc _ _ _
      have names := moved.flatMap_right Declaration.names
      rw [@List.flatMap_append _ _ c.allBeans] at names
      exact ⟨names.trans (own.append perm), rfl⟩
    · exact names_readMembers rest

end

/-- A warning gives no names. -/
theorem names_reportWarning (e : Element) (message : String) :
    NamesNothing resource (reportWarning resource e message) := by
  have silent : IsSilent (.problem ⟨.warning, message, locationOf resource e⟩) := rfl
  exact names_emit silent

/-- An alias gives none either. -/
theorem names_readAlias (e : Element) : NamesNothing resource (readAlias resource e) := by
  unfold readAlias
  split
  · exact names_emit trivial
  · exact (remarks_reportError resource e (by decide)).namesNothing
  · exact (remarks_reportError resource e (by decide)).namesNothing

/-- Nor does an import. -/
theorem names_readImport (e : Element) : NamesNothing resource (readImport resource e) := by
  unfold readImport
  split
  · exact (remarks_reportError resource e (by decide)).namesNothing
  · split
    · exact names_reportWarning resource e placeholderImport
    · exact names_emit trivial

/-- What a beans element tells of are the names that its bean elements give. -/
theorem names_readTopLevel : (es : List Element) →
    TellsNames resource (standingBeans es) (readTopLevel resource es)
  | [] => by
    rw [readTopLevel, standingBeans]
    exact .pure .nil
  | ⟨a, b, c, children, f, g, h⟩ :: rest => by
    have component := names_readComponent resource ⟨a, b, c, children, f, g, h⟩
    have further := names_readTopLevel rest
    dsimp only at component
    rw [readTopLevel, standingBeans]
    generalize (⟨a, b, c, children, f, g, h⟩ : Element) = e at component ⊢
    cases own : inBeansNamespace e with
    | false =>
      refine .tell (fun _ => trivial) (component.mono fun c given declared named => ?_) further
      exact ⟨by rw [declaredNames, List.flatMap_singleton]; exact named.1, named.2⟩
    | true =>
      simp only [Bool.not_true, Bool.false_eq_true, if_false]
      -- The bean elements of the element are set aside, to split on what its name makes of it.
      generalize part : (if e.localName = "bean" then [e]
        else if e.localName = "beans" then standingBeans children else []) = named
      split
      · rename_i name
        rw [name, if_pos rfl] at part
        subst part
        refine .tell (fun _ => trivial)
          ((names_readBean resource e).mono fun d given _ named => ?_) further
        obtain ⟨rfl, none⟩ := named
        exact ⟨by simp [declaredNames, Event.beans], none⟩
      · rename_i name
        rw [name, if_neg (by decide), if_neg (by decide)] at part
        subst part
        exact (names_readAlias resource e).tells.followedBy fun _ => further
      · rename_i name
        rw [name, if_neg (by decide), if_neg (by decide)] at part
        subst part
        exact (names_readImport resource e).tells.followedBy fun _ => further
      · rename_i name
        rw [name, if_neg (by decide), if_pos rfl] at part
        subst part
        exact (names_readTopLevel children).followedBy fun _ => further
      · rename_i name
        rw [name, if_neg (by decide), if_neg (by decide)] at part
        subst part
        exact further
      · rename_i notBean _ _ notBeans _
        rw [if_neg notBean, if_neg notBeans] at part
        subst part
        exact (names_reportWarning resource e _).tells.followedBy fun _ => further

/-- The bean elements of a document that are not inside of a value, in document order. -/
def documentBeans (root : Element) : List Element :=
  if isBeansElement "beans" root then standingBeans root.children else []

/-- The beans that a document tells of have the names that its elements give, and what it reports
are the repetitions among them; only a document with another root element ends early. -/
theorem exists_namesGiven (root : Element) : ∃ given,
    NamesGiven resource [] (documentBeans root) given ∧
      (declaredNames (eventsOfRoot resource root)).Perm given ∧
      reportedNames (eventsOfRoot resource root) = repeats [] given ∧
      (isBeansElement "beans" root = true → ∀ p, .fatal p ∉ eventsOfRoot resource root) := by
  unfold documentBeans eventsOfRoot
  split
  · obtain ⟨given, declared, named, gives, perm⟩ :=
      names_readTopLevel resource root.children { events := [.defaults (readDefaults root)] }
    obtain ⟨more, events, reported, told, goesOn⟩ := gives.events
    refine ⟨given, named, ?_, ?_, fun _ p ends => ?_⟩
    · rw [events, declaredNames_append, told]
      exact perm
    · rw [events, reportedNames_append, reported]
      rfl
    · rw [events] at ends
      rcases List.mem_append.1 ends with first | later
      · cases List.mem_singleton.1 first
      · exact goesOn p later
  · rename_i other
    exact ⟨[], .nil [], .nil, rfl, fun beans => absurd beans other⟩

/-- **Names of a document.**  A made-up name is always found: the first candidate that is not in use
is among those up to the number of names in use.  The names of the beans that a document tells of,
inside of values apart, are those that its elements give one after the other, made-up ones new among
those before.  The document reports exactly the ones that repeat an earlier one, each time; so it
reports none exactly if they are distinct. -/
theorem reportedNames_eventsOfRoot (root : Element) :
    (∀ base used, ∃ n ≤ used.length, freshName base used = numberedName base n ∧
      numberedName base n ∉ used ∧ ∀ k < n, numberedName base k ∈ used) ∧
    ∃ given, (∀ names, NamesGiven resource [] (documentBeans root) names ↔ names = given) ∧
      (declaredNames (eventsOfRoot resource root)).Perm given ∧
      reportedNames (eventsOfRoot resource root) = repeats [] given ∧
      (reportedNames (eventsOfRoot resource root) = [] ↔
        (declaredNames (eventsOfRoot resource root)).Nodup) := by
  obtain ⟨given, named, perm, reported, -⟩ := exists_namesGiven resource root
  refine ⟨freshName_spec, given, fun names => ⟨fun named' => named'.unique named, ?_⟩, perm,
    reported, ?_⟩
  · rintro rfl
    exact named
  · rw [reported, perm.nodup_iff, repeats_eq_nil_iff]

end Documents

end Document

end BeanWiring
