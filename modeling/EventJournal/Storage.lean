import EventJournal.Ambient
import EventJournal.Store

/-!
Storage as programs use it. What is kept in memory is one kind of it; others may fail in other ways.
-/
namespace EventJournal

structure Storage (m : Type → Type) (S : Type) where
  name : String
  blank : m (Stream S)
  load : Context → StreamId → Option OwnerId → m (Except StorageError (Stream S))
  persist : Context → Stream S → m (Except StorageError Unit)
  /-- Notes that the changes of a stored stream could not be published. -/
  setAside : Context → Stream S → m (Except StorageError Unit)
  delivery : DeliveryGuarantee := .bestEffort

/-- The batches that wait to be published again. -/
structure Backlog (m : Type → Type) where
  pending : Context → Nat → m (Except StorageError (List PendingBatch))
  acknowledge : Context → Nat → m (Except StorageError Unit)

namespace Store

variable {m : Type → Type} {S : Type}

def redeliveryNote (stream : Stream S) (batch : Nat) (span : Option Span) : Record :=
  ⟨.warn, "tidewater_infra::storage::in_memory", "events recorded for redelivery",
    [("stream", .text stream.name), ("stream_id", .text stream.id.text),
      ("version", .nat stream.version), ("batch", .nat batch)], span⟩

/-- The storage kept in a cell. `name` and `policy` are those of the store in it. -/
def inCell [Monad m] [Ambient m] [State S] (name : String) (policy : VersionPolicy)
    (cell : Cell m (Store S)) : Storage m S where
  name
  blank := do return (Stream.blank name (← Ambient.stamp)).withPolicy policy
  load _ id owner := cell.read fun store => store.load id owner
  persist _ stream := cell.attempt fun store => store.persist stream
  setAside ctx stream := do
    let now ← Ambient.now
    let marked : Except StorageError Nat ← cell.act fun store =>
      match store.setAside stream now with
      | .ok store => (.ok store.outbox.lastId, store)
      | .error e => (.error e, store)
    match marked with
    | .ok batch =>
      Ambient.record (redeliveryNote stream batch ctx.span)
      return .ok ()
    | .error e => return .error e
  delivery := .atLeastOnce

def backlog [Monad m] (cell : Cell m (Store S)) : Backlog m where
  pending _ limit := cell.read fun store => .ok (store.pending limit)
  acknowledge _ batch := cell.act fun store => (.ok (), store.acknowledge batch)

end Store

end EventJournal
