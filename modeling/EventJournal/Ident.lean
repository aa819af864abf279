import EventJournal.Shape.Coded

/-!
Identifiers of the things that messages are about. Each kind is a type of its own.
-/
namespace EventJournal

/-- One stream. -/
structure StreamId where
  uuid : Uuid
  deriving DecidableEq, Repr

/-- The owner of a stream. -/
structure OwnerId where
  uuid : Uuid
  deriving DecidableEq, Repr

/-- One recorded event. -/
structure EventId where
  uuid : Uuid
  deriving DecidableEq, Repr

/-- One command. Its reply carries the same. -/
structure CommandId where
  uuid : Uuid
  deriving DecidableEq, Repr

instance : Coded StreamId := ⟨.uuid, StreamId.uuid, StreamId.mk, fun _ => rfl⟩
instance : Coded OwnerId := ⟨.uuid, OwnerId.uuid, OwnerId.mk, fun _ => rfl⟩
instance : Coded EventId := ⟨.uuid, EventId.uuid, EventId.mk, fun _ => rfl⟩
instance : Coded CommandId := ⟨.uuid, CommandId.uuid, CommandId.mk, fun _ => rfl⟩

def StreamId.text (id : StreamId) : String := id.uuid.text
def OwnerId.text (id : OwnerId) : String := id.uuid.text
def EventId.text (id : EventId) : String := id.uuid.text
def CommandId.text (id : CommandId) : String := id.uuid.text

end EventJournal
