/-
# Reading a document again

A document that is read again says the same, but for its imports: what they lead to depends on
which documents exist.  Nothing else does.

Main statements:

* `stamp_readContents` : contents have the stamp of what they were read from;
* `readContents_eq_iff` : when the same is read again over other documents.
-/
import BeanWiring.Proofs.Config.Imports

namespace BeanWiring.Contents

variable {s : Surroundings} {c : Contents String}

/-! ## Stamps -/

theorem stamp_addEvent (event : Event) : (c.addEvent s event).stamp = c.stamp := by
  cases event with
  | defaults _ => rfl
  | bean _ => rfl
  | aliasing _ _ _ => rfl
  | component d =>
    rw [addEvent]
    cases s.namespaces.interpret d <;> rfl
  | importing _ _ => rw [addEvent, addImport_eq]
  | problem _ => rw [addEvent, addProblem_eq]
  | fatal _ => rw [addEvent, addProblem_eq]

theorem stamp_foldl_addEvent (events : List Event) :
    (events.foldl (addEvent s) c).stamp = c.stamp := by
  induction events generalizing c with
  | nil => rfl
  | cons event rest ih => rw [List.foldl_cons, ih, stamp_addEvent]

/-! ## Other documents -/

/-- The problems of an import element are told by what it leads to. -/
theorem Surroundings.notes_importing (resource : String) (location : Location) :
    s.notes (.importing resource location)
      = if !s.importsEnabled then []
        else if s.LeadsBack resource then (s.cycleWarning resource location).shown
        else if (s.target? resource).isNone then (missingImport resource location).shown
        else [] := by
  cases enabled : s.importsEnabled with
  | false => simp [notes, enabled]
  | true =>
    by_cases back : s.LeadsBack resource
    · simp [notes, enabled, back]
    · cases isThere : s.documentExists (resolveImport s.name resource) <;>
        simp [notes, target?, enabled, back, isThere]

variable {documentExists : String → Bool}

/-- An event is taken in alike where the import that it may be leads to the same. -/
theorem addEvent_congr {event : Event} (same : ∀ e ∈ importElements [event],
      ({ s with documentExists } : Surroundings).target? e.1 = s.target? e.1) :
    c.addEvent { s with documentExists } event = c.addEvent s event := by
  cases event with
  | importing resource location =>
    have target := same _ (List.mem_singleton_self (resource, location))
    rw [addEvent, addEvent, addImport_eq, addImport_eq, Surroundings.notes_importing,
      Surroundings.notes_importing, target]
    rfl
  | _ => rfl

theorem foldl_addEvent_congr {events : List Event} (same : ∀ e ∈ importElements events,
      ({ s with documentExists } : Surroundings).target? e.1 = s.target? e.1) :
    events.foldl (addEvent { s with documentExists }) c = events.foldl (addEvent s) c := by
  induction events generalizing c with
  | nil => rfl
  | cons event rest ih =>
    have split : importElements (event :: rest)
        = importElements [event] ++ importElements rest :=
      List.filterMap_append (l := [event])
    rw [split] at same
    have now := addEvent_congr (c := c) fun e listed => same e (List.mem_append_left _ listed)
    rw [List.foldl_cons, List.foldl_cons, now]
    exact ih fun e listed => same e (List.mem_append_right _ listed)

section Read

variable {σ : Type} [DocumentSource σ] {reader : DocumentReader} {source source' : σ}

/-- Contents have the stamp of the document that they were read from, if there was one. -/
theorem stamp_readContents : (readContents reader source s).stamp
    = (DocumentSource.read source s.name).toOption.map Document.stamp := by
  rw [readContents_eq_foldl, stamp_foldl_addEvent]

/-- Where a document is read again that is as it was, the same is read exactly if every import leads
to what it led to. -/
theorem readContents_eq_iff
    (same : DocumentSource.read source' s.name = DocumentSource.read source s.name) :
    readContents reader source' { s with documentExists } = readContents reader source s ↔
      ∀ i ∈ (readContents reader source s).imports,
        i.target = ({ s with documentExists } : Surroundings).target? i.resource := by
  have events : reader.yields source' s.name = reader.yields source s.name := by
    rw [DocumentReader.yields, same, DocumentReader.yields]
  constructor
  · intro again i listed
    rw [← again, imports_readContents] at listed
    obtain ⟨e, -, rfl⟩ := List.mem_map.1 listed
    rfl
  · intro targets
    rw [readContents_eq_foldl, readContents_eq_foldl, events, same]
    refine foldl_addEvent_congr fun e listed => (targets ⟨e.1, e.2, s.target? e.1⟩ ?_).symm
    rw [imports_readContents]
    exact List.mem_map.2 ⟨e, listed, rfl⟩

end Read

end BeanWiring.Contents
