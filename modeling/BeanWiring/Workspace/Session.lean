/-
# Sessions

A workspace together with the names that its user gave to things: configs and config
sets that are held on to, tables of merged definitions, and recorders of what happens
in the model.

A recorder keeps what its listener was told, also after the listener was removed;
taking its events lists those that were not taken before.
-/
import BeanWiring.Workspace.Model
import BeanWiring.Workspace.Query

namespace BeanWiring

/-- A listener under a name. -/
structure Recorder where
  listener : ListenerId
  /-- How many events were taken. -/
  taken : Nat := 0

/-- A workspace and the names given to things in it. -/
structure Session (σ : Type) where
  ws : Workspace σ
  held : List (String × ContextId) := []
  caches : List (String × MergeCache) := []
  recorders : List (String × Recorder) := []

namespace Session

variable {σ : Type}

/-! ## Holding on -/

/-- Gives a name to a config or a config set. -/
def hold (s : Session σ) (name : String) (id : ContextId) : Session σ :=
  { s with held := Keyed.put Prod.fst (name, id) s.held }

/-! ## Recorders -/

/-- The recorder of a name. -/
def recorder? (s : Session σ) (name : String) : Option Recorder :=
  (Keyed.get? Prod.fst name s.recorders).map Prod.snd

/-- Exchanges the recorder of a name. -/
def withRecorder (s : Session σ) (name : String) (recorder : Recorder) : Session σ :=
  { s with recorders := Keyed.put Prod.fst (name, recorder) s.recorders }

/-- Starts a recorder in place of the one of its name.  The listener of that one stays in the
model, but nothing is taken from it any more. -/
def subscribe (s : Session σ) (name : String) : Session σ :=
  let (listener, model) := s.ws.model.subscribe
  { s with ws := { s.ws with model } }.withRecorder name { listener }

/-- Removes the listener of a recorder; the flag tells whether it was there. -/
def unsubscribe (s : Session σ) (name : String) : Bool × Session σ :=
  match s.recorder? name with
  | none => (false, s)
  | some r =>
    let (found, model) := s.ws.model.unsubscribe r.listener
    (found, { s with ws := { s.ws with model } })

/-- Takes the events that a recorder has not listed yet. -/
def takeEvents (s : Session σ) (name : String) : List ModelEvent × Session σ :=
  match s.recorder? name with
  | none => ([], s)
  | some r =>
    let events := s.ws.model.eventsFor r.listener
    (events.drop r.taken, s.withRecorder name { r with taken := events.length })

/-! ## Tables of merged definitions -/

/-- The table of a name. -/
def cache (s : Session σ) (name : String) : MergeCache :=
  ((Keyed.get? Prod.fst name s.caches).map Prod.snd).getD {}

/-- The merged definition of the bean that a path leads to, by way of a table. -/
def cachedDefinition [DocumentSource σ] (s : Session σ) (name : String) (id : ContextId)
    (path : BeanPath) : Option (Definition (Value Declaration)) × Session σ :=
  let cache := s.cache name
  let (found, ws) := (Workspace.ask id (Workspace.askAbout path fun ctx b =>
    (cache.merged ctx b, if cache.knows b then [] else ancestorsAsked ctx b))).run s.ws
  let next := (found.map Prod.snd).getD cache
  (found.map Prod.fst, { s with ws, caches := Keyed.put Prod.fst (name, next) s.caches })

end Session

end BeanWiring
