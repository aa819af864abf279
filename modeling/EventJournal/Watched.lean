import EventJournal.Engine
import EventJournal.Handler

/-!
Intakes and handlers that tell the log what became of each call. An intake works inside a span of its own.
-/
namespace EventJournal.Watched

variable {m : Type → Type} [Monad m] [Ambient m]

def target := "tidewater_infra::logging"

/-- The component that calls are logged for when none is named. -/
def defaultLabel := "tidewater"

def commandSpan (label : String) (command : Command) : Span :=
  ⟨"command", [("component", .text label), ("command", .text command.name),
    ("command_id", .text command.id.text), ("stream", .text command.streamName)]⟩

def commandRecord (result : Except EngineError Reply) (span : Span) : Record :=
  match result with
  | .ok reply => ⟨.info, target, "command handled", [("version", .nat reply.version)], some span⟩
  | .error e =>
    if e.isPartial then
      ⟨.error, target, "command persisted but not delivered", [("error", .text e.message)], some span⟩
    else ⟨.warn, target, "command failed", [("error", .text e.message)], some span⟩

def commands (intake : CommandIntake m) (label : String) : CommandIntake m := fun ctx command => do
  let span := commandSpan label command
  let result ← intake (ctx.within span) command
  Ambient.record (commandRecord result span)
  return result

def eventSpan (label : String) (event : Event) : Span :=
  ⟨"event", [("component", .text label), ("event", .text event.name),
    ("event_id", .text event.id.text), ("stream", .text event.streamName),
    ("version", .nat event.version)]⟩

def eventRecord (result : Except EngineError Unit) (span : Span) : Record :=
  match result with
  | .ok () => ⟨.debug, target, "event handled", [], some span⟩
  | .error e => ⟨.warn, target, "event failed", [("error", .text e.message)], some span⟩

def events (intake : EventIntake m) (label : String) : EventIntake m := fun ctx event => do
  let span := eventSpan label event
  let result ← intake (ctx.within span) event
  Ambient.record (eventRecord result span)
  return result

def handleRecord (label : String) (event : Event) (ok : Bool) (span : Option Span) : Record :=
  ⟨.debug, target, "handler ran",
    [("component", .text label), ("event", .text event.name),
      ("stream_id", .text event.streamId.text), ("version", .nat event.version), ("ok", .bool ok)],
    span⟩

def rollbackRecord (label : String) (event : Event) (ok : Bool) (span : Option Span) : Record :=
  ⟨.info, target, "handler rolled back",
    [("component", .text label), ("event", .text event.name),
      ("stream_id", .text event.streamId.text), ("ok", .bool ok)], span⟩

def handler (inner : Handler m) (label : String) : Handler m where
  accepts := inner.accepts
  handle ctx event := do
    let result ← inner.handle ctx event
    Ambient.record (handleRecord label event result.isOk ctx.span)
    return result
  rollback ctx event := do
    let result ← inner.rollback ctx event
    Ambient.record (rollbackRecord label event result.isOk ctx.span)
    return result

end EventJournal.Watched
