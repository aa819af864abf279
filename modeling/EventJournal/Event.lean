import EventJournal.Ident
import EventJournal.Payload

/-!
Events: facts recorded in streams.
-/
namespace EventJournal

/-- A fresh identifier, and the time read right after it was drawn. -/
structure Stamp where
  id : Uuid
  time : Timestamp
  deriving DecidableEq, Repr

structure Event where
  id : EventId
  name : String
  streamId : StreamId
  streamName : String
  owner : Option OwnerId
  version : Nat
  createdAt : Timestamp
  payload : Json
  deriving Repr

namespace Event

def stamped (stamp : Stamp) (name streamName : String) (streamId : StreamId)
    (owner : Option OwnerId) (version : Nat) (payload : Json) : Event :=
  ⟨⟨stamp.id⟩, name, streamId, streamName, owner, version, stamp.time, payload⟩

instance : Coded Event where
  shape := .record "Event" false <|
    .required "id" .uuid <| .required "name" .text <| .required "stream_id" .uuid <|
    .required "stream_name" .text <| .optional "owner" .uuid <| .required "version" .u64 <|
    .required "created_at" .time <| .required "payload" .json .nil
  toVal e := (e.id.uuid, e.name, e.streamId.uuid, e.streamName, e.owner.map OwnerId.uuid, e.version,
    e.createdAt, e.payload, ())
  ofVal := fun (id, name, streamId, streamName, owner, version, createdAt, payload, _) =>
    ⟨⟨id⟩, name, ⟨streamId⟩, streamName, owner.map OwnerId.mk, version, createdAt, payload⟩
  ofVal_toVal := fun ⟨_, _, _, _, owner, _, _, _⟩ => by cases owner <;> rfl

def decode (α : Type) [Coded α] (e : Event) : Except PayloadError α :=
  Payload.decode α e.name e.payload

/-- The id of the stream, then its name. Ids have one length, so the key tells both. -/
def routingKey (e : Event) : String :=
  e.streamId.text ++ e.streamName

def text (e : Event) : String :=
  "Event\x7bid: " ++ e.id.text ++ ", name: " ++ e.name ++ ", version: " ++ Nat.repr e.version ++
    ", stream: " ++ e.streamName ++ "/" ++ e.streamId.text ++ "\x7d"

end Event

end EventJournal
