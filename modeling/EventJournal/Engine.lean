import EventJournal.Engine.Controller
import EventJournal.Engine.Error
import EventJournal.Settings
import EventJournal.Storage

/-!
The engine opens a stream, lets a controller change it, stores the changes and then publishes them.
Changes that are stored but not published are left to redelivery.
-/
namespace EventJournal

structure Registered (C : Type) where
  mode : Mode
  controller : C

structure Engine (m : Type → Type) (S : Type) where
  storage : Storage m S
  publisher : Publisher m
  commands : List (String × Registered (CommandController m S))
  events : List (String × Registered (EventController m S))
  /-- Events that are the engine's own. -/
  ignored : List String
  /-- Events that lead nowhere are errors. -/
  strict : Bool

/-- Carries out commands. -/
abbrev CommandIntake (m : Type → Type) :=
  Context → Command → m (Except EngineError Reply)

/-- Takes in events. -/
abbrev EventIntake (m : Type → Type) :=
  Context → Event → m (Except EngineError Unit)

namespace Engine

variable {m : Type → Type} {S : Type}

def target := "tidewater_infra::mutator"

def publishFailure (name : String) (stream : Stream S) (source : PublishError)
    (span : Option Span) : Record :=
  ⟨.warn, target, "publish failed after persist",
    [("stream", .text name), ("stream_id", .text stream.id.text), ("version", .nat stream.version),
      ("error", .text source.message)], span⟩

def markFailure (name : String) (stream : Stream S) (error : StorageError)
    (span : Option Span) : Record :=
  ⟨.error, target, "could not record unpublished events",
    [("stream", .text name), ("stream_id", .text stream.id.text), ("error", .text error.message)],
    span⟩

variable [Monad m]

/-- Runs a controller on a stream; what a refused one did to the stream is dropped. -/
def control (work : Revision m S α) (stream : Stream S) :
    ExceptT EngineError m (α × Stream S) :=
  ExceptT.mk do
    match ← work.run.run stream with
    | (.ok a, stream) => return .ok (a, stream)
    | (.error e, _) => return .error (.rejected e)

/-- The stream that a controller is to work on. -/
def openStream (e : Engine m S) (ctx : Context) (mode : Mode) (id : Option StreamId)
    (owner : Option OwnerId) (subject : String) : ExceptT EngineError m (Stream S) :=
  match mode, id with
  | .create, id => do
    let stream ← e.storage.blank
    return stream.assign (id.getD stream.id) owner
  | .load, some id => ExceptT.mk do return (← e.storage.load ctx id owner).mapError .loadFailed
  | .load, none => throw (.missingStreamId subject)

variable [Ambient m]

def checkCancelled (ctx : Context) : ExceptT EngineError m Unit := do
  if ← Ambient.isCancelled (m := m) ctx then throw .cancelled

/-- Leaves stored changes to redelivery, since they could not be published. -/
def compensate (e : Engine m S) (ctx : Context) (stream : Stream S) (source : PublishError) :
    m EngineError := do
  Ambient.record (publishFailure e.storage.name stream source ctx.span)
  match ← e.storage.setAside ctx stream with
  | .ok () => return .publishFailed source none
  | .error err =>
    Ambient.record (markFailure e.storage.name stream err ctx.span)
    return .publishFailed source (some err)

/-- Stores the changes of a stream, then publishes them. -/
def commit (e : Engine m S) (ctx : Context) (stream : Stream S) : ExceptT EngineError m Unit := do
  if stream.hasChanges then
    checkCancelled ctx
    ExceptT.mk do return (← e.storage.persist ctx stream).mapError .ofPersist
    match ← e.publisher ctx stream.changes with
    | .ok () => return ()
    | .error source => throw (← e.compensate ctx stream source)

def carryOut (e : Engine m S) : CommandIntake m := fun ctx command => ExceptT.run do
  checkCancelled ctx
  if command.streamName ≠ e.storage.name then
    throw (.streamMismatch e.storage.name command.streamName)
  match e.commands.lookup command.name with
  | none => throw (.controllerNotFound command.name)
  | some ⟨mode, controller⟩ =>
    let stream ← e.openStream ctx mode command.streamId command.owner command.name
    let (reply, stream) ← control (controller ctx command) stream
    let reply ←
      match reply with
      | some reply => pure reply
      | none => do pure (command.replyOk (← Ambient.now (m := m)) stream.version)
    e.commit ctx stream
    return reply

/-- Works on the picked streams in order; the first failure ends it. -/
def handleTargets (e : Engine m S) (ctx : Context) (event : Event) (mode : Mode)
    (controller : EventController m S) : List StreamId → ExceptT EngineError m Unit
  | [] => return ()
  | id :: rest => do
    let stream ← e.openStream ctx mode (some id) event.owner event.name
    let (_, stream) ← control (controller.handle ctx event) stream
    e.commit ctx stream
    e.handleTargets ctx event mode controller rest

/-- An event that leads nowhere is passed over, unless the engine is strict. -/
def astray (e : Engine m S) (error : EngineError) : ExceptT EngineError m Unit := do
  if e.strict then throw error

def takeIn (e : Engine m S) : EventIntake m := fun ctx event => ExceptT.run do
  checkCancelled ctx
  if e.ignored.contains event.name then e.astray (.selfEvent event.name)
  else
    match e.events.lookup event.name with
    | none => e.astray (.controllerNotFound event.name)
    | some ⟨mode, controller⟩ =>
      match (controller.pick event).ids with
      | [] => e.astray (.noStreamPicked event.name)
      | ids => e.handleTargets ctx event mode controller ids

end Engine

end EventJournal
