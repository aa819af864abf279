import EventJournal.Command
import EventJournal.Relay
import EventJournal.Handler
import EventJournal.Log
import EventJournal.Settings.Lookup

/-!
Reports: errors, replies and records as JSON. The report of an error names its kind, with the kind of an error
inside it behind a dot, and gives its message.
-/
namespace EventJournal.Report

def failed (kind message : String) (more : List (String × Json)) : Json :=
  .object ([("error", .text kind), ("message", .text message)] ++ more)

def payloadKind : PayloadError → String
  | .encode _ _ => "Encode"
  | .decode _ _ => "Decode"
  | .unexpected _ => "Unexpected"

def payload (e : PayloadError) : Json :=
  failed (payloadKind e) e.message []

def domainKind : DomainError → String
  | .validation _ => "Validation"
  | .invariant _ => "InvariantViolation"
  | .notFound _ => "NotFound"
  | .payload e => "Payload." ++ payloadKind e
  | .unauthorized => "Unauthorized"

def domain (e : DomainError) : Json :=
  failed (domainKind e) e.message []

def codecKind : CodecError → String
  | .encode _ => "Encode"
  | .decode _ => "Decode"

def codec (e : CodecError) : Json :=
  failed (codecKind e) e.message []

def reason (r : Json.Reason) : Json :=
  failed "Decode" r.message []

def storageKind : StorageError → String
  | .notFound _ _ => "NotFound"
  | .versionConflict _ _ _ _ => "VersionConflict"
  | .nameMismatch _ _ => "StreamNameMismatch"
  | .invalidName => "InvalidStreamName"
  | .codec e => "Codec." ++ codecKind e
  | .backend _ => "Backend"

def storage (e : StorageError) : Json :=
  failed (storageKind e) e.message [("conflict", .bool e.isConflict)]

def publishKind : PublishError → String
  | .topicNotFound _ => "TopicNotFound"
  | .closed => "Closed"
  | .cancelled => "Cancelled"
  | .transport _ => "Transport"

def publish (e : PublishError) : Json :=
  failed (publishKind e) e.message []

def engineKind : EngineError → String
  | .streamMismatch _ _ => "StreamMismatch"
  | .controllerNotFound _ => "ControllerNotFound"
  | .duplicateController _ => "DuplicateController"
  | .missingStreamId _ => "MissingStreamId"
  | .loadFailed e => "LoadFailed." ++ storageKind e
  | .rejected e => "Rejected." ++ domainKind e
  | .versionConflict e => "VersionConflict." ++ storageKind e
  | .persistFailed e => "PersistFailed." ++ storageKind e
  | .publishFailed e _ => "PublishFailed." ++ publishKind e
  | .selfEvent _ => "SelfEvent"
  | .noStreamPicked _ => "NoStreamPicked"
  | .cancelled => "Cancelled"

/-- The report of a partial failure also tells whether the events are kept for redelivery. -/
def engine (e : EngineError) : Json :=
  failed (engineKind e) e.message <|
    [("partial", .bool e.isPartial), ("conflict", .bool e.isConflict)] ++
      match e with
      | .publishFailed _ compensation => [("compensation", .ofOption storage compensation)]
      | _ => []

def failure : Failure → Json
  | .engine e => engine e
  | e => failed "Handler" e.message []

def relay (e : RelayError) : Json :=
  match e with
  | .outbox s => failed ("Outbox." ++ storageKind s) e.message []
  | .publish batch s => failed ("Publish." ++ publishKind s) e.message [("batch", .nat batch)]

def busKind : BusError → String
  | .invalidPartitions _ => "InvalidPartitions"
  | .invalidCapacity _ => "InvalidCapacity"
  | .alreadyListening => "AlreadyListening"
  | .closed => "Closed"

def bus (e : BusError) : Json :=
  failed (busKind e) e.message []

def configKind : ConfigError → String
  | .parse _ _ => "Parse"
  | .invalid _ _ => "Invalid"

def config (e : ConfigError) : Json :=
  failed (configKind e) e.message [("key", .text e.key)]

/-- The report of a result: of the error, or of what came out. -/
def result (error : ε → Json) (answer : α → Json) : Except ε α → Json
  | .ok a => answer a
  | .error e => error e

/-- The report of a result with nothing in it. -/
def done (error : ε → Json) : Except ε Unit → Json :=
  result error fun _ => .text "ok"

def reply (r : Reply) : Json :=
  .object [("command_id", .text r.commandId.text), ("version", .nat r.version),
    ("error", .ofOption .text r.error), ("ok", .bool r.isOk)]

def events (es : List Event) : Json :=
  .list (es.map Coded.toJson)

/-- A stream as it stands, with the events to come given by name and version. -/
def stream [Coded S] (s : Stream S) : Json :=
  .object [("id", .text s.id.text), ("name", .text s.name),
    ("owner", .ofOption (fun o => .text (OwnerId.text o)) s.owner), ("version", .nat s.version),
    ("previous_version", .nat s.previousVersion),
    ("expected", match s.expectedVersion with
      | .exactly n => .nat n
      | .any => .null),
    ("has_changes", .bool s.hasChanges),
    ("changes", .list (s.changes.map fun e => .text (e.name ++ "@" ++ Nat.repr e.version))),
    ("period", .ofOption .nat s.policy.period?), ("updated_at", .text s.updatedAt.text),
    ("state", Coded.toJson s.state)]

def span (s : Span) : Json :=
  .object [("name", .text s.name), ("fields", .object s.fields)]

def record (r : Record) : Json :=
  .object [("level", .text r.level.name), ("target", .text r.target), ("message", .text r.message),
    ("fields", .object r.fields), ("span", .ofOption span r.span)]

end EventJournal.Report
