import EventJournal.Publisher
import EventJournal.Store

/-!
Why an engine did not carry out a command or an event.
-/
namespace EventJournal

inductive EngineError where
  | streamMismatch (expected found : String)
  | controllerNotFound (name : String)
  | duplicateController (name : String)
  | missingStreamId (name : String)
  | loadFailed (error : StorageError)
  | rejected (error : DomainError)
  | versionConflict (error : StorageError)
  | persistFailed (error : StorageError)
  /-- The events are stored. `compensation` says why they could not be kept for redelivery, if so. -/
  | publishFailed (source : PublishError) (compensation : Option StorageError)
  | selfEvent (name : String)
  | noStreamPicked (name : String)
  | cancelled
  deriving DecidableEq, Repr

namespace EngineError

def message : EngineError → String
  | .streamMismatch expected found =>
    "engine serves " ++ expected ++ " streams, command targets " ++ found
  | .controllerNotFound n => "no controller registered for " ++ n
  | .duplicateController n => "controller already registered for " ++ n
  | .missingStreamId n => "command " ++ n ++ " does not name a stream id"
  | .loadFailed e => "stream load failed: " ++ e.message
  | .rejected e => "rejected: " ++ e.message
  | .versionConflict e => e.message
  | .persistFailed e => "persist failed: " ++ e.message
  | .publishFailed source _ => "events persisted but not published: " ++ source.message
  | .selfEvent n => "event " ++ n ++ " is produced by this engine"
  | .noStreamPicked n => "no stream picked for event " ++ n
  | .cancelled => "cancelled"

/-- The changes are stored although the call failed. -/
def isPartial : EngineError → Bool
  | .publishFailed _ _ => true
  | _ => false

def isConflict : EngineError → Bool
  | .versionConflict _ => true
  | _ => false

/-- How an error of `persist` is told. -/
def ofPersist (e : StorageError) : EngineError :=
  if e.isConflict then .versionConflict e else .persistFailed e

end EngineError

end EventJournal
