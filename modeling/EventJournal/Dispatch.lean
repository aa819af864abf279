import EventJournal.Ambient
import EventJournal.Handler

/-!
Dispatch of one event to a list of handlers. They run in the order of registration; when one fails,
it and those that ran before it are undone in reverse.
-/
namespace EventJournal

/-- A failure of the handler with an index, while handling or undoing an event. -/
structure DispatchError where
  index : Nat
  isRollback : Bool
  event : Event
  source : Failure
  deriving Repr

namespace DispatchError

def message (e : DispatchError) : String :=
  (if e.isRollback then "rollback of handler #" else "handler #") ++ Nat.repr e.index ++
    " failed on " ++ e.event.text ++ ": " ++ e.source.message

def record (e : DispatchError) : Record :=
  ⟨.warn, "tidewater_events::bus", "event handler failed",
    [("handler", .nat e.index), ("rollback", .bool e.isRollback), ("error", .text e.message)], none⟩

end DispatchError

/-- Is told of the failures. -/
abbrev Observer (m : Type → Type) :=
  DispatchError → m Unit

/-- Puts the failures into the log. -/
def Observer.log {m : Type → Type} [Ambient m] : Observer m :=
  fun e => Ambient.record e.record

namespace Dispatch

variable {m : Type → Type}

/-- The handlers that take an event, with their indices in the list. -/
def matching (handlers : List (Handler m)) (event : Event) : List (Nat × Handler m) :=
  (handlers.zipIdx.map fun (h, i) => (i, h)).filter fun (_, h) => h.accepts event

variable [Monad m]

/-- Undoes the handlers in the order given; a failure does not stop it. -/
def undo (observe : Observer m) (ctx : Context) (event : Event) : List (Nat × Handler m) → m Unit
  | [] => return ()
  | (i, h) :: rest => do
    match ← h.rollback ctx event with
    | .ok () => pure ()
    | .error source => observe ⟨i, true, event, source⟩
    undo observe ctx event rest

/-- Runs the handlers that are left; `ran` are those that ran, the last one first. -/
def run (observe : Observer m) (ctx : Context) (event : Event) (ran : List (Nat × Handler m)) :
    List (Nat × Handler m) → m Unit
  | [] => return ()
  | (i, h) :: rest => do
    match ← h.handle ctx event with
    | .ok () => run observe ctx event ((i, h) :: ran) rest
    | .error source =>
      observe ⟨i, false, event, source⟩
      undo observe ctx event ((i, h) :: ran)

end Dispatch

def dispatch {m : Type → Type} [Monad m] (handlers : List (Handler m)) (observe : Observer m)
    (ctx : Context) (event : Event) : m Unit :=
  Dispatch.run observe ctx event [] (Dispatch.matching handlers event)

end EventJournal
