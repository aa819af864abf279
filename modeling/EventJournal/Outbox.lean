import EventJournal.Event

/-!
The outbox: events that are stored but whose publication failed, in batches, oldest first. Batch ids
only rise.
-/
namespace EventJournal

structure PendingBatch where
  id : Nat
  streamName : String
  streamId : StreamId
  /-- The version to which the batch brings its stream. -/
  version : Nat
  events : List Event
  recordedAt : Timestamp
  deriving Repr

instance : Coded PendingBatch where
  shape := .record "PendingBatch" false <|
    .required "id" .u64 <| .required "stream_name" .text <| .required "stream_id" .uuid <|
    .required "version" .u64 <| .required "events" (.list (Coded.shape Event)) <|
    .required "recorded_at" .time .nil
  toVal b := (b.id, b.streamName, b.streamId.uuid, b.version, b.events.map Coded.toVal,
    b.recordedAt, ())
  ofVal := fun (id, streamName, streamId, version, events, recordedAt, _) =>
    ⟨id, streamName, ⟨streamId⟩, version, events.map Coded.ofVal, recordedAt⟩
  ofVal_toVal b :=
    congrArg (PendingBatch.mk b.id b.streamName b.streamId b.version · b.recordedAt)
      (Coded.ofVal_toVal b.events)

structure Outbox where
  lastId : Nat
  batches : List PendingBatch

namespace Outbox

def empty : Outbox :=
  ⟨0, []⟩

/-- Files a batch under the next id. Batches are kept in the order of their ids. Since a new id is above all that were
given (`Outbox.Numbered.record`), its place in that order is the end of the list, and nothing has to be sorted. -/
def record (o : Outbox) (batch : Nat → PendingBatch) : Outbox :=
  ⟨o.lastId + 1, o.batches ++ [batch (o.lastId + 1)]⟩

/-- The oldest batches, at most `limit`. -/
def pending (o : Outbox) (limit : Nat) : List PendingBatch :=
  o.batches.take limit

/-- Removes a delivered batch; an id that is not pending changes nothing. -/
def acknowledge (o : Outbox) (id : Nat) : Outbox :=
  { o with batches := o.batches.filter (·.id != id) }

@[simp] theorem lastId_acknowledge (o : Outbox) (id : Nat) :
    (o.acknowledge id).lastId = o.lastId := rfl

@[simp] theorem pending_empty (limit : Nat) : empty.pending limit = [] := by
  simp [empty, pending]

end Outbox

end EventJournal
