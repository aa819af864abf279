import EventJournal.Engine
import EventJournal.Proofs.Crowd.Pact
import EventJournal.Proofs.Store.Journal
import EventJournal.Relay

/-!
Engines and relays at work on one store. Their programs share the store with whatever else there is, on
which publishers and controllers act as they like. What is done with the store and the publisher is told
as soon as it is done.
-/
namespace EventJournal

/-- The changes with which a stream was stored, and the version to which they brought it. -/
structure Parcel where
  id : StreamId
  version : Nat
  events : List Event

def Stream.parcel {S : Type} (s : Stream S) : Parcel :=
  ⟨s.id, s.version, s.changes⟩

def PendingBatch.parcel (b : PendingBatch) : Parcel :=
  ⟨b.streamId, b.version, b.events⟩

inductive Deed where
  /-- Storage took a stream. -/
  | stored (p : Parcel)
  /-- Events went to the publisher. -/
  | handed (events : List Event)
  | published (events : List Event)
  | refused (events : List Event)
  /-- Unpublished changes went into the outbox. -/
  | kept (p : Parcel)
  /-- Unpublished changes could not be put there. -/
  | lost (p : Parcel)
  /-- A relay was told of pending batches. -/
  | held (batches : List PendingBatch)
  | acknowledged (batch : Nat)

/-- How far a job has come with changes of its own, or with the batches that it carries. -/
inductive Phase where
  | free
  /-- The changes are stored, but neither published nor set aside. -/
  | owes (p : Parcel)
  | carries (batches : List PendingBatch)
  /-- The first batch is published, but not acknowledged. -/
  | delivered (batch : PendingBatch) (rest : List PendingBatch)

def Phase.after : Phase → Deed → Phase
  | _, .stored p => .owes p
  | .owes _, .published _ | .owes _, .kept _ | .owes _, .lost _ => .free
  | _, .held bs => .carries bs
  | .carries (b :: rest), .published _ => .delivered b rest
  | .delivered _ rest, .acknowledged _ => .carries rest
  | f, _ => f

/-- The phase that a job has come to by its deeds. -/
def phase (deeds : List Deed) : Phase :=
  deeds.foldl Phase.after .free

@[simp] theorem phase_nil : phase [] = .free := rfl

@[simp] theorem phase_concat (deeds : List Deed) (d : Deed) :
    phase (deeds ++ [d]) = (phase deeds).after d := by
  rw [phase, List.foldl_append]
  rfl

variable {W S : Type}

/-- A job that shares a store with others. -/
abbrev Errand (W S α : Type) :=
  Told (Store S × W) Deed α

namespace Errand

/-- The batch that an act puts into the outbox. -/
def recorded (old new : Store S) : List Deed :=
  if old.outbox.lastId < new.outbox.lastId then
    new.outbox.batches.getLast?.toList.map fun b => .kept b.parcel
  else []

/-- Does nothing but fail, if there is a fault. -/
def faulty (fault : Fiber W (Option StorageError)) (t : Errand W S (Except StorageError Unit)) :
    Errand W S (Except StorageError Unit) := do
  match ← Told.beside fault with
  | some e => return .error e
  | none => t

/-- A storage that tells what it takes, and sometimes fails to set changes aside. -/
def storage [Ambient (Fiber W)] [State S] (name : String) (policy : VersionPolicy)
    (fault : Context → Stream S → Fiber W (Option StorageError)) : Storage (Errand W S) S :=
  let inner : Storage (Errand W S) S := Store.inCell name policy Told.kept
  { inner with
    persist := fun ctx stream => do
      match ← inner.persist ctx stream with
      | .ok () =>
        Told.tell (.stored stream.parcel)
        return .ok ()
      | .error e => return .error e
    setAside := fun ctx stream => do
      match ← faulty (fault ctx stream) (inner.setAside ctx stream) with
      | .ok () => return .ok ()
      | .error e =>
        Told.tell (.lost stream.parcel)
        return .error e }

/-- A publisher that tells what it is given, and what becomes of it. -/
def publisher (inner : Publisher (Fiber W)) : Publisher (Errand W S) := fun ctx events => do
  Told.tell (.handed events)
  match ← Told.beside (inner ctx events) with
  | .ok () =>
    Told.tell (.published events)
    return .ok ()
  | .error e =>
    Told.tell (.refused events)
    return .error e

/-- The outbox of the store, which tells whom it told of which batches. -/
def backlog : Backlog (Errand W S) :=
  let inner : Backlog (Errand W S) := Store.backlog Told.kept
  { inner with
    pending := fun ctx limit => do
      match ← inner.pending ctx limit with
      | .ok batches =>
        Told.tell (.held batches)
        return .ok batches
      | .error e => return .error e
    acknowledge := fun ctx batch => do
      match ← inner.acknowledge ctx batch with
      | .ok () =>
        Told.tell (.acknowledged batch)
        return .ok ()
      | .error e => return .error e }

/-- A controller's program beside the store. -/
def revision (work : Revision (Fiber W) S α) : Revision (Errand W S) S α :=
  ExceptT.mk fun stream => Told.beside (work.run.run stream)

end Errand

/-- What an engine is given besides its storage, and the faults that its storage has. -/
structure Staff (W S : Type) where
  publisher : Publisher (Fiber W)
  commands : List (String × Registered (CommandController (Fiber W) S))
  events : List (String × Registered (EventController (Fiber W) S))
  ignored : List String
  strict : Bool
  fault : Context → Stream S → Fiber W (Option StorageError)

namespace Staff

def command (c : Registered (CommandController (Fiber W) S)) :
    Registered (CommandController (Errand W S) S) :=
  ⟨c.mode, fun ctx command => Errand.revision (c.controller ctx command)⟩

def event (c : Registered (EventController (Fiber W) S)) :
    Registered (EventController (Errand W S) S) :=
  ⟨c.mode, c.controller.pick, fun ctx event => Errand.revision (c.controller.handle ctx event)⟩

/-- The engine on the shared store. -/
def engine [Ambient (Fiber W)] [State S] (staff : Staff W S) (name : String)
    (policy : VersionPolicy) : Engine (Errand W S) S where
  storage := Errand.storage name policy staff.fault
  publisher := Errand.publisher staff.publisher
  commands := staff.commands.map fun (n, c) => (n, command c)
  events := staff.events.map fun (n, c) => (n, event c)
  ignored := staff.ignored
  strict := staff.strict

end Staff

inductive Call (W S : Type) where
  | command (staff : Staff W S) (ctx : Context) (command : Command)
  | event (staff : Staff W S) (ctx : Context) (event : Event)
  | pass (publisher : Publisher (Fiber W)) (config : RelayConfig) (ctx : Context)

/-- What a call comes back with. -/
inductive Outcome where
  | answered (result : Except EngineError Reply)
  | taken (result : Except EngineError Unit)
  | relayed (result : Except RelayError Nat)

/-- Why the stored changes could not be kept for redelivery either, if so. -/
def Outcome.compensation? : Outcome → Option StorageError
  | .answered (.error (.publishFailed _ e)) => e
  | .taken (.error (.publishFailed _ e)) => e
  | _ => none

namespace Call

def relay (publisher : Publisher (Fiber W)) (config : RelayConfig) : Relay (Errand W S) :=
  ⟨Errand.backlog, Errand.publisher publisher, config⟩

variable [Ambient (Fiber W)] [State S]

def errand (name : String) (policy : VersionPolicy) : Call W S → Errand W S Outcome
  | .command staff ctx c => do
    return .answered (← (staff.engine name policy).carryOut ctx c)
  | .event staff ctx e => do
    return .taken (← (staff.engine name policy).takeIn ctx e)
  | .pass publisher config ctx => do
    return .relayed (← ((relay publisher config : Relay (Errand W S)).pass ctx).run)

/-- The calls at work on a fresh store, none of them begun. -/
def crowd (name : String) (codec : Codec) (policy : VersionPolicy) (w : W) (calls : List (Call W S)) :
    Crowd (Store S × W) Deed Outcome :=
  .gather (.fresh name codec policy, w) (calls.map (errand name policy))

end Call

/-- Calls do not call for others; from outside everything but the store may change. -/
def Errand.rules {κ : Type} : Rules (Store S × W) Deed κ (W → W) where
  call _ := none
  again _ := none
  watch s t := recorded s.1 t.1
  outside f s := (s.1, f s.2)

end EventJournal
