/-
# Beans that a config drops

A config holds the first bean of a name that its document tells of at the top level, where an
element that stands for a single bean counts as that bean, and components with all beans inside of
them.  A bean is dropped where its name is taken.  Its document has reported the name then, and the
report is among the problems of the config unless the name has the text of the problems that are
never shown.

Main statements:

* `bean?_readContents` : the first declaration of a name stays;
* `mem_reportedNames_yields` : a name that comes twice is reported;
* `exists_problem_usedMessage_iff` : which reports are among the problems;
* `held_or_reported` : what becomes of each bean of a document.
-/
import BeanWiring.Proofs.Config.Imports
import BeanWiring.Proofs.Document.Names

namespace BeanWiring

/-! ## Components -/

mutual

/-- A component has the beans that its element declares. -/
theorem allBeans_ofDeclaration (resource : String) : (k : ComponentDeclaration) →
    (Component.ofDeclaration resource k).allBeans = k.allBeans.map (Bean.named resource)
  | ⟨_, _, _, beans, nested, _⟩ => by
    rw [Component.ofDeclaration, Component.allBeans, ComponentDeclaration.allBeans,
      List.map_append, beansOfComponents_componentsOf resource nested]

theorem beansOfComponents_componentsOf (resource : String) : (ks : List ComponentDeclaration) →
    beansOfComponents (componentsOf resource ks) = (beansOfDeclared ks).map (Bean.named resource)
  | [] => rfl
  | k :: ks => by
    rw [componentsOf, beansOfComponents, beansOfDeclared, List.map_append,
      allBeans_ofDeclaration resource k, beansOfComponents_componentsOf resource ks]

end

namespace Contents

/-! ## What events add -/

/-- The bean that an event adds, unless its name is taken. -/
def Surroundings.added? (s : Surroundings) : Event → Option Declaration
  | .bean d => some d
  | .component k =>
    match s.namespaces.interpret k with
    | .bean d => some d
    | _ => none
  | _ => none

/-- The component that an event adds. -/
def Surroundings.addedComponent? (s : Surroundings) : Event → Option ComponentDeclaration
  | .component k =>
    match s.namespaces.interpret k with
    | .component k => some k
    | _ => none
  | _ => none

/-- The name of the bean that an event adds is taken by one that was added before. -/
def Surroundings.Taken (s : Surroundings) (before : List Event) (event : Event)
    (d : Declaration) : Prop :=
  s.added? event = some d ∧ ∃ first ∈ before.filterMap s.added?, first.name = d.name

/-- A bean is among those of a config, or in one of its components. -/
def Holds (c : Contents String) (b : Bean) : Prop :=
  b ∈ c.beans ∨ b ∈ beansOfComponents c.components

section Events

variable {s : Surroundings} {c : Contents String}

/-- What an event adds to beans and components. -/
theorem beans_addEvent (event : Event) :
    (c.addEvent s event).beans
      = ((s.added? event).toList.map (Bean.named s.name)).foldl
          (fun beans b => Keyed.putNew Bean.name b beans) c.beans ∧
    (c.addEvent s event).components
      = c.components ++ (s.addedComponent? event).toList.map (Component.ofDeclaration s.name) := by
  have nothing : c.components = c.components ++ [] := (List.append_nil _).symm
  cases event with
  | defaults _ => exact ⟨rfl, nothing⟩
  | bean _ => exact ⟨rfl, nothing⟩
  | aliasing _ _ _ => exact ⟨rfl, nothing⟩
  | importing resource location =>
    rw [addEvent, addImport_eq]
    exact ⟨rfl, nothing⟩
  | problem p =>
    rw [addEvent, addProblem_eq]
    exact ⟨rfl, nothing⟩
  | fatal p =>
    rw [addEvent, addProblem_eq]
    exact ⟨rfl, nothing⟩
  | component k =>
    unfold addEvent Surroundings.added? Surroundings.addedComponent?
    dsimp only
    cases s.namespaces.interpret k with
    | bean d => exact ⟨rfl, nothing⟩
    | component k' => exact ⟨rfl, rfl⟩
    | nothing => exact ⟨rfl, nothing⟩

/-- What events add to beans and components. -/
theorem beans_foldl_addEvent (events : List Event) :
    (events.foldl (addEvent s) c).beans
      = ((events.filterMap s.added?).map (Bean.named s.name)).foldl
          (fun beans b => Keyed.putNew Bean.name b beans) c.beans ∧
    (events.foldl (addEvent s) c).components = c.components
      ++ (events.filterMap s.addedComponent?).map (Component.ofDeclaration s.name) := by
  induction events generalizing c with
  | nil => exact ⟨rfl, (List.append_nil _).symm⟩
  | cons event rest ih =>
    obtain ⟨beans, components⟩ := beans_addEvent (s := s) (c := c) event
    obtain ⟨beans', components'⟩ := ih (c := c.addEvent s event)
    have split : ∀ {B : Type} (f : Event → Option B),
        (event :: rest).filterMap f = (f event).toList ++ rest.filterMap f := by
      intro B f
      rw [List.filterMap_cons]
      cases f event <;> rfl
    rw [List.foldl_cons, beans', components', beans, components, split, split, List.map_append,
      List.map_append, List.foldl_append, List.append_assoc]
    exact ⟨rfl, rfl⟩

end Events

end Contents

/-- After guarded writes, the entry of a key is the one that was there, or the first one written. -/
theorem Keyed.get?_foldl_putNew {κ α : Type} [DecidableEq κ] (key : α → κ) (k : κ)
    (xs table : List α) :
    get? key k (xs.foldl (fun table x => putNew key x table) table)
      = (get? key k table).or (get? key k xs) := by
  induction xs generalizing table with
  | nil => exact (Option.or_none).symm
  | cons x xs ih =>
    rw [List.foldl_cons, ih, get?_putNew, Option.or_assoc]
    refine congrArg _ ?_
    rw [get?, get?, List.find?_cons]
    by_cases own : key x = k <;> simp [own]

/-! ## Event streams of documents -/

theorem Event.taken_of_goesOn {events : List Event} (goesOn : ∀ p, .fatal p ∉ events) :
    Event.taken events = events := by
  induction events with
  | nil => rfl
  | cons event rest ih =>
    have same := ih fun p later => goesOn p (List.mem_cons_of_mem event later)
    cases event with
    | fatal p => exact absurd List.mem_cons_self (goesOn p)
    | _ =>
      rw [Event.taken, same]
      intro p ends
      cases ends

namespace Document

/-- A document is taken in as a whole. -/
theorem taken_events (resource content : String) :
    Event.taken (events resource content) = events resource content := by
  unfold events
  cases Markup.parse content with
  | error found => rfl
  | ok root =>
    dsimp only
    obtain ⟨-, -, -, -, goesOn⟩ := exists_namesGiven resource root
    by_cases beans : isBeansElement "beans" root = true
    · exact Event.taken_of_goesOn (goesOn beans)
    · rw [eventsOfRoot, if_neg beans]
      rfl

/-- A name that comes twice is reported. -/
theorem mem_reportedNames_events {resource content name : String}
    (twice : 2 ≤ (declaredNames (events resource content)).count name) :
    name ∈ reportedNames (events resource content) := by
  unfold events at *
  cases parsed : Markup.parse content with
  | error found => simp [parsed, declaredNames, Event.beans] at twice
  | ok root =>
    rw [parsed] at twice
    dsimp only at twice ⊢
    obtain ⟨given, -, perm, reported, -⟩ := exists_namesGiven resource root
    rw [reported, mem_repeats, ← perm.count_eq]
    exact .inr twice

end Document

section Yields

variable {σ : Type} [DocumentSource σ] (source : σ) (name : String)

/-- What is taken in of a document that can be read is all that it tells. -/
theorem yields_markup {document : Document}
    (read : DocumentSource.read source name = .ok document) :
    DocumentReader.markup.yields source name = Document.events document.name document.content := by
  rw [DocumentReader.yields, read]
  exact Document.taken_events _ _

theorem mem_reportedNames_yields {repeated : String}
    (twice : 2 ≤ (declaredNames (DocumentReader.markup.yields source name)).count repeated) :
    repeated ∈ reportedNames (DocumentReader.markup.yields source name) := by
  cases read : DocumentSource.read source name with
  | ok document =>
    rw [yields_markup source name read] at twice ⊢
    exact Document.mem_reportedNames_events twice
  | error error => simp [DocumentReader.yields, read, declaredNames, Event.beans] at twice

end Yields

namespace Contents

/-! ## Standard interpretation -/

section Standard

variable {s : Surroundings} {event : Event} {d : Declaration}

/-- By default a component either counts as its only bean, or is added as it is. -/
theorem Surroundings.interpret_standard (standard : s.namespaces = {}) (k : ComponentDeclaration) :
    s.namespaces.interpret k = .component k ∨
      ∃ d, s.namespaces.interpret k = .bean d ∧ k.allBeans = [d] := by
  have usual : s.namespaces.interpret k = Interpreter.standard k := by
    rw [standard]
    rfl
  rw [usual]
  obtain ⟨name, uri, attributes, beans, nested, location⟩ := k
  unfold Interpreter.standard ComponentDeclaration.allBeans
  dsimp only
  split
  · exact .inr ⟨_, rfl, rfl⟩
  · exact .inl rfl

theorem Surroundings.mem_beans_of_added (standard : s.namespaces = {})
    (added : s.added? event = some d) : d ∈ event.beans := by
  cases event with
  | bean d' =>
    cases added
    exact List.mem_cons_self
  | component k =>
    rcases interpret_standard standard k with whole | ⟨d', counts, only⟩
    · simp [added?, whole] at added
    · have same : d' = d := by simpa [added?, counts] using added
      rw [Event.beans, only, same]
      exact List.mem_cons_self
  | _ => cases added

/-- A bean that an event tells of is added, or comes with a component that is. -/
theorem Surroundings.added_or_component (standard : s.namespaces = {}) (there : d ∈ event.beans) :
    s.added? event = some d ∨ ∃ k, s.addedComponent? event = some k ∧ d ∈ k.allBeans := by
  cases event with
  | bean d' =>
    rw [List.mem_singleton.1 there]
    exact .inl rfl
  | component k =>
    rcases interpret_standard standard k with whole | ⟨d', counts, only⟩
    · exact .inr ⟨k, by simp [addedComponent?, whole], there⟩
    · rw [Event.beans, only, List.mem_singleton] at there
      exact .inl (by simp [added?, counts, there])
  | _ => cases there

/-- Where the name of a bean is taken, it comes twice. -/
theorem Surroundings.Taken.twice (standard : s.namespaces = {}) {before after : List Event}
    (taken : s.Taken before event d) :
    2 ≤ (declaredNames (before ++ event :: after)).count d.name := by
  obtain ⟨added, first, earlier, same⟩ := taken
  have tells : ∀ {e : Event} {d' : Declaration} (events : List Event), e ∈ events →
      d' ∈ e.beans → 1 ≤ (declaredNames events).count d'.name := by
    intro e d' events listed there
    exact List.one_le_count_iff.2 (List.mem_flatMap.2
      ⟨e, listed, List.mem_flatMap.2 ⟨d', there, List.mem_cons_self⟩⟩)
  obtain ⟨e, listed, added'⟩ := List.mem_filterMap.1 earlier
  have one := tells before listed (mem_beans_of_added standard added')
  have two := tells (event :: after) List.mem_cons_self (mem_beans_of_added standard added)
  rw [declaredNames_append, List.count_append]
  rw [same] at one
  omega

end Standard

/-! ## What becomes of the beans of a document -/

section Documents

variable {σ : Type} [DocumentSource σ] (reader : DocumentReader) (source : σ) (s : Surroundings)

/-- The first bean of a name stays. -/
theorem bean?_readContents (name : String) : (readContents reader source s).bean? name
    = (((reader.yields source s.name).filterMap s.added?).find? (·.name = name)).map
        (Bean.named s.name) := by
  rw [readContents_eq_foldl, bean?, (beans_foldl_addEvent _).1, Keyed.get?_foldl_putNew, Keyed.get?,
    Keyed.get?, List.find?_map]
  rfl

section Split

variable {reader source s} {before after : List Event} {event : Event} {d : Declaration}
  (split : reader.yields source s.name = before ++ event :: after)
include split

/-- The first bean of a name is held. -/
theorem holds_or_taken (added : s.added? event = some d) :
    (readContents reader source s).Holds (.named s.name d) ∨ s.Taken before event d := by
  by_cases earlier : ∃ first ∈ before.filterMap s.added?, first.name = d.name
  · exact .inr ⟨added, earlier⟩
  · have none : (before.filterMap s.added?).find? (·.name = d.name) = none :=
      List.find?_eq_none.2 fun first listed same =>
        earlier ⟨first, listed, of_decide_eq_true same⟩
    have found : (readContents reader source s).bean? d.name = some (.named s.name d) := by
      rw [bean?_readContents, split, List.filterMap_append, List.find?_append, none,
        Option.none_or, List.filterMap_cons_some added, List.find?_cons, decide_eq_true rfl]
      rfl
    exact .inl (.inl (List.mem_of_find?_eq_some found))

/-- Where a name is taken, the bean that was told of first is held under it. -/
theorem bean?_of_taken (taken : s.Taken before event d) :
    ∃ first ∈ before.filterMap s.added?, first.name = d.name ∧
      (readContents reader source s).bean? d.name = some (.named s.name first) := by
  obtain ⟨-, earlier, listed, same⟩ := taken
  have some : ((before.filterMap s.added?).find? (·.name = d.name)).isSome :=
    List.find?_isSome.2 ⟨earlier, listed, decide_eq_true same⟩
  obtain ⟨first, found⟩ := Option.isSome_iff_exists.1 some
  have named : first.name = d.name := by simpa using List.find?_some found
  refine ⟨first, List.mem_of_find?_eq_some found, named, ?_⟩
  rw [bean?_readContents, split, List.filterMap_append, List.find?_append, found]
  rfl

end Split

/-- The components that events add are there, with the beans inside of them. -/
theorem mem_components_readContents {event : Event} (told : event ∈ reader.yields source s.name)
    {k : ComponentDeclaration} (added : s.addedComponent? event = some k) {d : Declaration}
    (there : d ∈ k.allBeans) :
    .named s.name d ∈ beansOfComponents (readContents reader source s).components := by
  rw [readContents_eq_foldl, (beans_foldl_addEvent _).2, beansOfComponents_eq_flatMap,
    List.nil_append]
  refine List.mem_flatMap.2 ⟨_, List.mem_map_of_mem (List.mem_filterMap.2 ⟨event, told, added⟩), ?_⟩
  rw [allBeans_ofDeclaration]
  exact List.mem_map_of_mem there

/-- No problem with the text of those that are never shown is there. -/
theorem mentions_of_mem_notes {event : Event} {p : Diagnostic} (noted : p ∈ s.notes event) :
    Text.mentions Document.placeholderImport.toList p.message.toList = false := by
  have shown : ∀ {q : Problem}, p ∈ q.shown →
      Text.mentions Document.placeholderImport.toList p.message.toList = false := by
    intro q there
    rw [Problem.shown] at there
    split at there
    · cases there
    · rename_i other
      rw [List.mem_singleton.1 there]
      exact Bool.eq_false_iff.2 other
  cases event with
  | problem q => exact shown noted
  | fatal q => exact shown noted
  | importing resource location =>
    rw [Surroundings.notes] at noted
    split at noted
    · cases noted
    · split at noted
      · exact shown noted
      · split at noted
        · exact shown noted
        · cases noted
  | _ => cases noted

/-- The report of a name has the text of another message exactly if the name has it. -/
theorem mentions_usedMessage (name : String) :
    Text.mentions Document.placeholderImport.toList (usedMessage name).toList
      = Text.mentions Document.placeholderImport.toList name.toList := by
  have message : (usedMessage name).toList = "Bean name '".toList
      ++ (name.toList ++ '\'' :: " is already used in this <beans> element".toList) := by
    rw [usedMessage, String.toList_append, String.toList_append, List.append_assoc]
    rfl
  rw [message]
  exact Text.mentions_around (by simp [Document.placeholderImport]) (by decide) (by decide)

/-- The report of a name is there exactly if the name has not the text of the problems that are
never shown. -/
theorem exists_problem_usedMessage_iff {name : String}
    (reported : name ∈ reportedNames (reader.yields source s.name)) :
    (∃ p ∈ (readContents reader source s).problems, p.severity = .error ∧
      p.message = usedMessage name) ↔
    Text.mentions Document.placeholderImport.toList name.toList = false := by
  rw [(expands_readContents reader source).problems]
  constructor
  · rintro ⟨p, there, -, message⟩
    obtain ⟨event, -, noted⟩ := List.mem_flatMap.1 there
    rw [← mentions_usedMessage, ← message]
    exact mentions_of_mem_notes s noted
  · intro other
    obtain ⟨event, told, found⟩ := List.mem_filterMap.1 reported
    cases event with
    | problem q =>
      obtain ⟨severe, message⟩ := Problem.reportedName?_eq_some_iff.1 found
      have shown : s.notes (.problem q) = [q.toDiagnostic] := by
        rw [Surroundings.notes, Problem.shown, message, mentions_usedMessage, other]
        rfl
      refine ⟨q.toDiagnostic, List.mem_flatMap.2 ⟨_, told, ?_⟩, severe, message⟩
      rw [shown]
      exact List.mem_cons_self
    | _ => cases found

end Documents

/-- **Dropped beans.**  By default, each bean that a document tells of is held by its config, or its
name is taken by one that was told of before.  Then it is the first bean of the name that is held
under it, and the document has reported the name; the report is among the problems of the config
exactly if the name does not have the text of the problems that are never shown. -/
theorem held_or_reported {σ : Type} [DocumentSource σ] (source : σ) {s : Surroundings}
    (standard : s.namespaces = {}) :
    let events := DocumentReader.markup.yields source s.name
    let c := readContents .markup source s
    (∀ document, DocumentSource.read source s.name = .ok document →
      events = Document.events document.name document.content) ∧
    ∀ before event after, events = before ++ event :: after → ∀ d ∈ event.beans,
      (c.Holds (.named s.name d) ∨ s.Taken before event d) ∧
      (s.Taken before event d →
        (∃ first ∈ before.filterMap s.added?, first.name = d.name ∧
          c.bean? d.name = some (.named s.name first)) ∧
        d.name ∈ reportedNames events ∧
        ((∃ p ∈ c.problems, p.severity = .error ∧ p.message = usedMessage d.name) ↔
          Text.mentions Document.placeholderImport.toList d.name.toList = false)) := by
  intro events c
  refine ⟨fun document read => yields_markup source s.name read, ?_⟩
  intro before event after split d there
  refine ⟨?_, fun taken => ?_⟩
  · rcases s.added_or_component standard there with added | ⟨k, added, inside⟩
    · exact holds_or_taken split added
    · have told : event ∈ events := split ▸ List.mem_append_right before List.mem_cons_self
      exact .inl (.inr (mem_components_readContents .markup source s told added inside))
  · have reported : d.name ∈ reportedNames events := by
      refine mem_reportedNames_yields source s.name ?_
      have twice : 2 ≤ (declaredNames (before ++ event :: after)).count d.name :=
        taken.twice standard
      rwa [← split] at twice
    exact ⟨bean?_of_taken split taken, reported,
      exists_problem_usedMessage_iff .markup source s reported⟩

/-! ### Two beans of an unusual name -/

/-- A bean element on a line of its own, with the text of a problem that is never shown as its
name. -/
def twinElement (line : Nat) : Markup.Element :=
  { localName := "bean", attributes := [("id", Document.placeholderImport)]
    startLine := line, endLine := line }

/-- The bean of such an element. -/
def twinBean (line : Nat) : Declaration :=
  ⟨Document.placeholderImport, [], Document.attributesDefinition "a.xml" (twinElement line)⟩

/-- A document with two of them. -/
def twinsText : String :=
  "<beans>\n<bean id='Resource location contains placeholder'/>\n" ++
    "<bean id='Resource location contains placeholder'/></beans>"

def twins : DocumentStore := ({} : DocumentStore).put "a.xml" twinsText

def twinSurroundings : Surroundings := { name := "a.xml", documentExists := fun _ => false }

set_option maxRecDepth 10000 in
theorem parse_twinsText : Markup.parse twinsText = .ok
    { localName := "beans", startLine := 1, endLine := 3
      children := [twinElement 2, twinElement 3] } := by rfl

/-- What is read before the second bean. -/
def beforeTwin : List Event :=
  [.defaults {}, .bean (twinBean 2),
    .problem ⟨.error, usedMessage Document.placeholderImport, .ofLines "a.xml" 3 3⟩]

open Document in
/-- Such an element claims its name, and then tells of its bean. -/
theorem run_readTopLevel_twin (line : Nat) (rest : List Markup.Element) (r : Reading) :
    (readTopLevel "a.xml" (twinElement line :: rest)).run r
      = (readTopLevel "a.xml" rest).run ((emit (.bean (twinBean line))).run
          ((claimNames "a.xml" (twinElement line) [placeholderImport]).run r).2).2 := by
  have bean : (readBean "a.xml" (twinElement line)).run r = (twinBean line,
      ((claimNames "a.xml" (twinElement line) [placeholderImport]).run r).2) := by
    rw [readBean, twinElement, readParts]
    rfl
  have first : readTopLevel "a.xml" (twinElement line :: rest)
      = readBean "a.xml" (twinElement line) >>= fun d =>
          emit (.bean d) >>= fun _ => readTopLevel "a.xml" rest := by
    rw [twinElement, readTopLevel]
    rfl
  rw [first, StateT.run_bind, bean]
  rfl

theorem yields_twins : DocumentReader.markup.yields twins "a.xml"
    = beforeTwin ++ [.bean (twinBean 3)] := by
  have read : DocumentSource.read twins "a.xml" = .ok ⟨"a.xml", twinsText, 1⟩ := rfl
  rw [yields_markup twins "a.xml" read, Document.events, parse_twinsText]
  show Document.eventsOfRoot "a.xml" _ = _
  rw [Document.eventsOfRoot, if_pos (by decide), run_readTopLevel_twin, run_readTopLevel_twin,
    Document.readTopLevel]
  rfl

theorem beans_twins : (readContents .markup twins twinSurroundings).beans
      = [.named "a.xml" (twinBean 2)] ∧
    (readContents .markup twins twinSurroundings).components = [] := by
  have told : DocumentReader.markup.yields twins twinSurroundings.name
      = beforeTwin ++ [.bean (twinBean 3)] := yields_twins
  rw [readContents_eq_foldl, told, (beans_foldl_addEvent _).1, (beans_foldl_addEvent _).2]
  exact ⟨rfl, rfl⟩

/-- The second bean is dropped, and no problem tells of it. -/
theorem twin_dropped_silently :
    let c := readContents .markup twins twinSurroundings
    DocumentReader.markup.yields twins "a.xml" = beforeTwin ++ [.bean (twinBean 3)] ∧
      twinSurroundings.Taken beforeTwin (.bean (twinBean 3)) (twinBean 3) ∧
      ¬ c.Holds (.named "a.xml" (twinBean 3)) ∧
      (twinBean 3).name ∈ reportedNames (DocumentReader.markup.yields twins "a.xml") ∧
      ¬ ∃ p ∈ c.problems, p.severity = .error ∧ p.message = usedMessage (twinBean 3).name := by
  intro c
  obtain ⟨-, becomes⟩ := held_or_reported twins (s := twinSurroundings) rfl
  have taken : twinSurroundings.Taken beforeTwin (.bean (twinBean 3)) (twinBean 3) :=
    ⟨rfl, twinBean 2, List.mem_cons_self, rfl⟩
  obtain ⟨-, reported, shown⟩ := (becomes _ _ _ yields_twins _ List.mem_cons_self).2 taken
  refine ⟨yields_twins, taken, ?_, reported, fun there => ?_⟩
  · obtain ⟨beans, components⟩ := beans_twins
    rintro (own | inside)
    · rw [beans, List.mem_singleton] at own
      have lines : (3 : Nat) = 2 := congrArg (·.declaration.startLine) own
      omega
    · rw [components] at inside
      cases inside
  · have other := shown.1 there
    cases other

end Contents

end BeanWiring
