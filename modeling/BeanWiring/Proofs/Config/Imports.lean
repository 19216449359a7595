/-
# What imports lead to

A document is taken in event by event, up to a fatal one.  Each import element becomes one import,
and it pulls a config in exactly if imports are enabled, the name that it leads to exists, and no
config of the name is being imported already.  So along a chain of imports no name comes twice.

Main statements:

* `expands_readContents` : the imports and the problems of a document, element by element;
* `target_of_readContents` : what imports lead to exists, and is not being imported already;
* `notes_of_cycle` : an import that leads back leaves one warning.
-/
import Mathlib.Data.List.Forall2
import BeanWiring.Config.Contents
import BeanWiring.Proofs.Text.Searching

namespace BeanWiring

/-! ## Events -/

namespace Event

/-- The events that are taken in: all up to the first fatal one. -/
def taken : List Event → List Event
  | [] => []
  | .fatal p :: _ => [.fatal p]
  | event :: rest => event :: taken rest

/-- What an import element refers to, and where it is. -/
def import? : Event → Option (String × Location)
  | .importing resource location => some (resource, location)
  | _ => none

end Event

/-- The import elements among events, in order. -/
def importElements (events : List Event) : List (String × Location) :=
  events.filterMap Event.import?

/-- The events that a config is read from.  A document that cannot be read is a fatal problem. -/
def DocumentReader.yields {σ : Type} [DocumentSource σ] (reader : DocumentReader) (source : σ)
    (name : String) : List Event :=
  match DocumentSource.read source name with
  | .ok document => Event.taken (reader.events document)
  | .error error => [.fatal ⟨.error, error.message, .unknown name⟩]

/-- What a problem adds to the problems of a config, unless it is one of imports with
placeholders. -/
def Problem.shown (p : Problem) : List Diagnostic :=
  if Text.mentions Document.placeholderImport.toList p.message.toList then [] else [p.toDiagnostic]

namespace Contents

/-! ## What becomes of an import element -/

namespace Surroundings

/-- A name that an import may lead to: it exists, and is not being imported already. -/
structure Admits (s : Surroundings) (name : String) : Prop where
  notItself : name ≠ s.name
  notAbove : name ∉ s.chain
  isThere : s.documentExists name = true

/-- Whether an import leads to a config that is being imported. -/
def LeadsBack (s : Surroundings) (resource : String) : Prop :=
  resolveImport s.name resource = s.name ∨ resolveImport s.name resource ∈ s.chain

instance (s : Surroundings) (resource : String) : Decidable (s.LeadsBack resource) :=
  inferInstanceAs (Decidable (_ ∨ _))

/-- The config that an import pulls in. -/
def target? (s : Surroundings) (resource : String) : Option String :=
  let target := resolveImport s.name resource
  if s.importsEnabled ∧ ¬ s.LeadsBack resource ∧ s.documentExists target then some target else none

/-- The warning that an import leads back. -/
def cycleWarning (s : Surroundings) (resource : String) (location : Location) : Problem :=
  ⟨.warning, "Import cycle detected for resource '" ++ resolveImport s.name resource ++ "'",
    location⟩

/-- The problem that there is nothing to import. -/
def missingImport (resource : String) (location : Location) : Problem :=
  ⟨.error, "Failed to import bean definitions from relative location '" ++ resource ++ "'",
    location⟩

/-- The problems that an event leaves. -/
def notes (s : Surroundings) : Event → List Diagnostic
  | .importing resource location =>
    if !s.importsEnabled then []
    else if s.LeadsBack resource then (s.cycleWarning resource location).shown
    else if !s.documentExists (resolveImport s.name resource) then
      (missingImport resource location).shown
    else []
  | .problem p => p.shown
  | .fatal p => p.shown
  | _ => []

variable {s : Surroundings} {resource : String}

/-- An import pulls in what it leads to, exactly if imports are enabled and the name is admitted. -/
theorem target?_eq_some_iff {name : String} : s.target? resource = some name ↔
    s.importsEnabled = true ∧ s.Admits name ∧ name = resolveImport s.name resource := by
  unfold target?
  dsimp only
  constructor
  · intro found
    split at found
    · rename_i h
      cases found
      exact ⟨h.1, ⟨fun same => h.2.1 (.inl same), fun above => h.2.1 (.inr above), h.2.2⟩, rfl⟩
    · cases found
  · rintro ⟨enabled, admits, rfl⟩
    have onward : ¬ s.LeadsBack resource := by
      rintro (same | above)
      · exact admits.notItself same
      · exact admits.notAbove above
    rw [if_pos ⟨enabled, onward, admits.isThere⟩]

/-- An import that leads back leaves one warning, unless the name that it leads to has the text of
the problems that are never shown. -/
theorem notes_of_cycle (enabled : s.importsEnabled = true) (back : s.LeadsBack resource)
    (location : Location) : s.notes (.importing resource location)
      = if Text.mentions Document.placeholderImport.toList (resolveImport s.name resource).toList
        then [] else [(s.cycleWarning resource location).toDiagnostic] := by
  have message : (s.cycleWarning resource location).message.toList
      = "Import cycle detected for resource '".toList
        ++ ((resolveImport s.name resource).toList ++ ['\'']) := by
    simp only [cycleWarning, String.toList_append, List.append_assoc]
    rfl
  have mentions : Text.mentions Document.placeholderImport.toList
      (s.cycleWarning resource location).message.toList
        = Text.mentions Document.placeholderImport.toList
          (resolveImport s.name resource).toList := by
    rw [message]
    exact Text.mentions_around (by simp [Document.placeholderImport]) (by decide) (by decide)
  rw [notes, enabled, if_neg (by simp), if_pos back, Problem.shown, mentions]

end Surroundings

variable {s : Surroundings} {c : Contents String}

/-! ## Single events -/

theorem addProblem_eq (p : Problem) :
    c.addProblem p = { c with problems := c.problems ++ p.shown } := by
  unfold addProblem Problem.shown
  split
  · rw [List.append_nil]
  · rfl

/-- An import element adds its import, and leaves its problems. -/
theorem addImport_eq (resource : String) (location : Location) :
    c.addImport s resource location =
      { c with
        imports := c.imports ++ [⟨resource, location, s.target? resource⟩]
        problems := c.problems ++ s.notes (.importing resource location) } := by
  unfold addImport Surroundings.target? Surroundings.notes
  dsimp only
  by_cases disabled : (!s.importsEnabled) = true
  · have off : s.importsEnabled = false := by simpa using disabled
    rw [if_pos disabled, if_pos disabled, if_neg (by simp [off]), List.append_nil]
  · have on : s.importsEnabled = true := by simpa using disabled
    rw [if_neg disabled, if_neg disabled]
    by_cases back : s.LeadsBack resource
    · have back' : resolveImport s.name resource = s.name ∨
          resolveImport s.name resource ∈ s.chain := back
      rw [if_pos back', if_pos back, if_neg (by simp [back]), addProblem_eq]
      rfl
    · have back' : ¬ (resolveImport s.name resource = s.name ∨
          resolveImport s.name resource ∈ s.chain) := back
      rw [if_neg back', if_neg back]
      by_cases absent : (!s.documentExists (resolveImport s.name resource)) = true
      · have missing : s.documentExists (resolveImport s.name resource) = false := by
          simpa using absent
        rw [if_pos absent, if_pos absent, if_neg (by simp [missing]), addProblem_eq]
        rfl
      · have isThere : s.documentExists (resolveImport s.name resource) = true := by
          simpa using absent
        rw [if_neg absent, if_neg absent, if_pos ⟨on, back, isThere⟩, List.append_nil]

/-- What an event adds to the imports and to the problems. -/
theorem addEvent_adds (event : Event) :
    (c.addEvent s event).imports = c.imports
        ++ (importElements [event]).map (fun e => ⟨e.1, e.2, s.target? e.1⟩) ∧
      (c.addEvent s event).problems = c.problems ++ s.notes event := by
  have nothing : c.imports = c.imports ++ [] ∧ c.problems = c.problems ++ [] := by simp
  cases event with
  | importing resource location =>
    rw [addEvent, addImport_eq]
    exact ⟨rfl, rfl⟩
  | problem p =>
    rw [addEvent, addProblem_eq]
    exact ⟨nothing.1, rfl⟩
  | fatal p =>
    rw [addEvent, addProblem_eq]
    exact ⟨nothing.1, rfl⟩
  | component d =>
    rw [addEvent]
    cases s.namespaces.interpret d with
    | bean _ => exact nothing
    | component _ => exact nothing
    | nothing => exact nothing
  | defaults _ => exact nothing
  | bean _ => exact nothing
  | aliasing _ _ _ => exact nothing

/-! ## Whole documents -/

/-- Imports and problems as events make them: each import element becomes one import, which pulls in
what it leads to exactly if imports are enabled and the name is admitted; and each event leaves its
own problems, in order. -/
structure Expands (s : Surroundings) (events : List Event) (c : Contents String) : Prop where
  imports : List.Forall₂ (fun (element : String × Location) (i : Import String) =>
    i.resource = element.1 ∧ i.location = element.2 ∧ ∀ name, i.target = some name ↔
      s.importsEnabled = true ∧ s.Admits name ∧ name = resolveImport s.name element.1)
    (importElements events) c.imports
  problems : c.problems = events.flatMap s.notes

/-- Events are taken in one after the other, up to the first fatal one. -/
theorem addEvents_eq_foldl (events : List Event) :
    addEvents s c events = (Event.taken events).foldl (addEvent s) c := by
  induction events generalizing c with
  | nil => rfl
  | cons event rest ih =>
    cases event with
    | fatal _ => rfl
    | defaults _ => exact ih
    | bean _ => exact ih
    | aliasing _ _ _ => exact ih
    | component _ => exact ih
    | importing _ _ => exact ih
    | problem _ => exact ih

theorem foldl_addEvent_adds (events : List Event) :
    (events.foldl (addEvent s) c).imports = c.imports
        ++ (importElements events).map (fun e => ⟨e.1, e.2, s.target? e.1⟩) ∧
      (events.foldl (addEvent s) c).problems = c.problems ++ events.flatMap s.notes := by
  induction events generalizing c with
  | nil => exact ⟨(List.append_nil _).symm, (List.append_nil _).symm⟩
  | cons event rest ih =>
    obtain ⟨imports, problems⟩ := addEvent_adds (s := s) (c := c) event
    obtain ⟨imports', problems'⟩ := ih (c := c.addEvent s event)
    have split : importElements ([event] ++ rest)
        = importElements [event] ++ importElements rest := List.filterMap_append
    rw [List.singleton_append] at split
    rw [List.foldl_cons, imports', problems', imports, problems, split, List.map_append,
      List.flatMap_cons, List.append_assoc, List.append_assoc]
    exact ⟨rfl, rfl⟩

section Read

variable {σ : Type} [DocumentSource σ] (reader : DocumentReader) (source : σ)

/-- A config is read from the events of its document. -/
theorem readContents_eq_foldl : readContents reader source s
    = (reader.yields source s.name).foldl (addEvent s)
        { stamp := (DocumentSource.read source s.name).toOption.map Document.stamp } := by
  unfold readContents DocumentReader.yields
  cases DocumentSource.read source s.name with
  | ok document => exact addEvents_eq_foldl _
  | error error => rfl

theorem imports_readContents : (readContents reader source s).imports
    = (importElements (reader.yields source s.name)).map fun e => ⟨e.1, e.2, s.target? e.1⟩ := by
  rw [readContents_eq_foldl, (foldl_addEvent_adds _).1]
  rfl

/-- Whatever a document says, its imports and its problems are those that its events make. -/
theorem expands_readContents :
    Expands s (reader.yields source s.name) (readContents reader source s) where
  imports := by
    rw [imports_readContents, List.forall₂_map_right_iff, List.forall₂_same]
    exact fun _ _ => ⟨rfl, rfl, fun _ => Surroundings.target?_eq_some_iff⟩
  problems := by
    rw [readContents_eq_foldl, (foldl_addEvent_adds _).2]
    rfl

/-- And its imports lead to names that exist and are not being imported already. -/
theorem target_of_readContents :
    ∀ n ∈ (readContents reader source s).importedConfigs, s.Admits n := by
  intro n imported
  rw [importedConfigs, imports_readContents, List.filterMap_map] at imported
  obtain ⟨element, -, found⟩ := List.mem_filterMap.1 imported
  exact (Surroundings.target?_eq_some_iff.1 found).2.1

end Read

end Contents

end BeanWiring
