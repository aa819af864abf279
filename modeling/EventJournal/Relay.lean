import EventJournal.Settings
import EventJournal.Publisher
import EventJournal.Storage

/-!
The relay publishes the batches of an outbox again, oldest first, and stops at the first one that
fails.
-/
namespace EventJournal

inductive RelayError where
  | outbox (error : StorageError)
  | publish (batch : Nat) (source : PublishError)
  deriving DecidableEq, Repr

def RelayError.message : RelayError → String
  | .outbox e => "reading the outbox failed: " ++ e.message
  | .publish batch source =>
    "republishing batch " ++ Nat.repr batch ++ " failed: " ++ source.message

structure Relay (m : Type → Type) where
  backlog : Backlog m
  publisher : Publisher m
  config : RelayConfig

namespace Relay

variable {m : Type → Type} [Monad m] [Ambient m]

def target := "tidewater_infra::relay"

/-- Publishes and acknowledges the batches in order, and counts them. A cancelled pass ends early. -/
def deliver (r : Relay m) (ctx : Context) (delivered : Nat) :
    List PendingBatch → ExceptT RelayError m Nat
  | [] => return delivered
  | batch :: rest => do
    if ← Ambient.isCancelled (m := m) ctx then return delivered
    ExceptT.mk do return (← r.publisher ctx batch.events).mapError (.publish batch.id)
    ExceptT.mk do return (← r.backlog.acknowledge ctx batch.id).mapError .outbox
    r.deliver ctx (delivered + 1) rest

/-- One pass over the oldest batches; tells how many were delivered. -/
def pass (r : Relay m) (ctx : Context) : ExceptT RelayError m Nat := do
  let pending ← ExceptT.mk do
    return (← r.backlog.pending ctx r.config.batch).mapError RelayError.outbox
  r.deliver ctx 0 pending

def note (level : Level) (message : String) (fields : List (String × Json)) (span : Option Span) :
    m Unit :=
  Ambient.record ⟨level, target, message, fields, span⟩

def started (r : Relay m) (ctx : Context) : m Unit :=
  note .info "outbox relay started"
    [("interval_ms", .nat r.config.intervalMs), ("batch", .nat r.config.batch)] ctx.span

def stopped (ctx : Context) : m Unit :=
  note .info "outbox relay stopped" [] ctx.span

/-- One pass, told to the log unless nothing was to be done. -/
def loggedPass (r : Relay m) (ctx : Context) : m Unit := do
  match ← (r.pass ctx).run with
  | .ok 0 => return ()
  | .ok n => note .info "outbox batches redelivered" [("delivered", .nat n)] ctx.span
  | .error e => note .error "outbox relay pass failed" [("error", .text e.message)] ctx.span

def passes (r : Relay m) (ctx : Context) : Nat → m Unit
  | 0 => return ()
  | n + 1 => do
    r.loggedPass ctx
    r.passes ctx n

/-- Runs for a stretch of time, with a pass at the end of each interval. -/
def runFor (r : Relay m) (ctx : Context) (millis : Nat) : m Unit := do
  r.started ctx
  r.passes ctx (millis / r.config.intervalMs)
  stopped ctx

end Relay

end EventJournal
