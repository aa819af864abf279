import EventJournal.Proofs.Engine.Replay
import EventJournal.Proofs.Engine.Targets

/-!
An engine on a store, seen at work: which streams it opens, what it hands to its publisher, and what becomes of the
store. A target is opened once, and whatever comes of it the store keeps all that it had.
-/
namespace EventJournal

open Told

variable {W S α β ε : Type}

/-- What is seen of an engine at work. -/
inductive Sight where
  /-- A stream was opened, a new one if there is no id. -/
  | opened (id : Option StreamId)
  | handed (events : List Event)
  | answered (result : Except PublishError Unit)

/-- A job on a store that is seen at work. -/
abbrev Sighted (W S α : Type) :=
  Told (Store S × W) Sight α

namespace Sighted

def storage [Ambient (Fiber W)] [State S] (name : String) (policy : VersionPolicy)
    (fault : Context → Stream S → Fiber W (Option StorageError)) : Storage (Sighted W S) S :=
  let inner : Storage (Sighted W S) S := Store.inCell name policy Told.kept
  { inner with
    blank := do
      tell (.opened none)
      inner.blank
    load := fun ctx id owner => do
      tell (.opened (some id))
      inner.load ctx id owner
    setAside := fun ctx stream => do
      match ← Told.beside (fault ctx stream) with
      | some e => return .error e
      | none => inner.setAside ctx stream }

def publisher (inner : Publisher (Fiber W)) : Publisher (Sighted W S) := fun ctx events => do
  tell (.handed events)
  let result ← Told.beside (inner ctx events)
  tell (.answered result)
  return result

/-- A controller's program beside the store. -/
def revision (work : Revision (Fiber W) S α) : Revision (Sighted W S) S α :=
  ExceptT.mk fun stream => Told.beside (work.run.run stream)

def command (c : Registered (CommandController (Fiber W) S)) : Registered (CommandController (Sighted W S) S) :=
  ⟨c.mode, fun ctx command => revision (c.controller ctx command)⟩

def event (c : Registered (EventController (Fiber W) S)) : Registered (EventController (Sighted W S) S) :=
  ⟨c.mode, c.controller.pick, fun ctx event => revision (c.controller.handle ctx event)⟩

end Sighted

/-- The engine on a store, seen at work. -/
def Staff.sighted [Ambient (Fiber W)] [State S] (staff : Staff W S) (name : String) (policy : VersionPolicy) :
    Engine (Sighted W S) S where
  storage := Sighted.storage name policy staff.fault
  publisher := Sighted.publisher staff.publisher
  commands := staff.commands.map fun (n, c) => (n, Sighted.command c)
  events := staff.events.map fun (n, c) => (n, Sighted.event c)
  ignored := staff.ignored
  strict := staff.strict

namespace Sighted

/-- The streams that were opened. -/
def opened (sights : List Sight) : List (Option StreamId) :=
  sights.filterMap fun
    | .opened id => some id
    | _ => none

/-- It opens these streams, and the store goes on from what it holds. -/
def Touches (ids : List (Option StreamId)) (t : Sighted W S α) : Prop :=
  ∀ s u, t.alone? s = some u → s.1.GrowsTo u.state.1 ∧ opened u.notes = ids

section Touches

variable {ids ids' : List (Option StreamId)}

theorem Touches.bind {t : Sighted W S α} {f : α → Sighted W S β} (ht : Touches ids t) (hf : ∀ a, Touches ids' (f a)) :
    Touches (ids ++ ids') (t >>= f) := by
  intro s w h
  obtain ⟨u, v, hu, hv, rfl⟩ := alone?_bind_eq_some.mp h
  obtain ⟨hgrows, hopened⟩ := ht s u hu
  obtain ⟨hgrows', hopened'⟩ := hf u.result u.state v hv
  refine ⟨hgrows.trans hgrows', ?_⟩
  rw [← hopened, ← hopened', opened, List.filterMap_append]
  rfl

/-- What comes after it opens nothing. -/
theorem Touches.last {t : Sighted W S α} {f : α → Sighted W S β} (ht : Touches ids t) (hf : ∀ a, Touches [] (f a)) :
    Touches ids (t >>= f) :=
  List.append_nil ids ▸ ht.bind hf

end Touches

section Engine

variable [Ambient (Fiber W)] [State S] {staff : Staff W S} {name : String} {policy : VersionPolicy} {ctx : Context}
  {event : Event}

/-- The stream that is asked for when a target is opened. -/
def asked (mode : Mode) (id : StreamId) : Option StreamId :=
  match mode with
  | .create => none
  | .load => some id

variable {c : Registered (EventController (Fiber W) S)}

variable {ids : List StreamId} {s : Store S × W} {u : Upshot (Store S × W) Sight (Except EngineError Unit)}

end Engine

end Sighted

end EventJournal
