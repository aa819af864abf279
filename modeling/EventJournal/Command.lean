import EventJournal.Event

/-!
Commands, which ask for a change of a stream, and replies to them.
-/
namespace EventJournal

structure Command where
  id : CommandId
  name : String
  streamName : String
  /-- Left out when the stream is still to be made. -/
  streamId : Option StreamId
  owner : Option OwnerId
  createdAt : Timestamp
  payload : Json
  deriving Repr

/-- What became of a command. A reply that carries an error has version 0. -/
structure Reply where
  commandId : CommandId
  version : Nat
  error : Option String
  createdAt : Timestamp
  deriving DecidableEq, Repr

def Reply.isOk (r : Reply) : Bool :=
  r.error.isNone

instance : Coded Reply where
  shape := .record "Reply" false <|
    .required "command_id" .uuid <| .required "version" .u64 <| .optional "error" .text <|
    .required "created_at" .time .nil
  toVal r := (r.commandId.uuid, r.version, r.error, r.createdAt, ())
  ofVal := fun (id, version, error, createdAt, _) => ⟨⟨id⟩, version, error, createdAt⟩
  ofVal_toVal _ := rfl

namespace Command

def stamped (stamp : Stamp) (name streamName : String) (payload : Json) : Command :=
  ⟨⟨stamp.id⟩, name, streamName, none, none, stamp.time, payload⟩

/-- A command whose payload is still to be encoded. -/
def ofPayload (stamp : Stamp) (name streamName : String) (payload : Payload) :
    Except PayloadError Command :=
  (payload.encode name).map (stamped stamp name streamName)

instance : Coded Command where
  shape := .record "Command" false <|
    .required "id" .uuid <| .required "name" .text <| .required "stream_name" .text <|
    .optional "stream_id" .uuid <| .optional "owner" .uuid <| .required "created_at" .time <|
    .required "payload" .json .nil
  toVal c := (c.id.uuid, c.name, c.streamName, c.streamId.map StreamId.uuid,
    c.owner.map OwnerId.uuid, c.createdAt, c.payload, ())
  ofVal := fun (id, name, streamName, streamId, owner, createdAt, payload, _) =>
    ⟨⟨id⟩, name, streamName, streamId.map StreamId.mk, owner.map OwnerId.mk, createdAt, payload⟩
  ofVal_toVal := fun ⟨_, _, _, streamId, owner, _, _⟩ => by cases streamId <;> cases owner <;> rfl

def decode (α : Type) [Coded α] (c : Command) : Except PayloadError α :=
  Payload.decode α c.name c.payload

def replyOk (c : Command) (now : Timestamp) (version : Nat) : Reply :=
  ⟨c.id, version, none, now⟩

def replyError (c : Command) (now : Timestamp) (error : String) : Reply :=
  ⟨c.id, 0, some error, now⟩

def text (c : Command) : String :=
  "Command\x7bid: " ++ c.id.text ++ ", name: " ++ c.name ++ ", stream: " ++ c.streamName ++
    (match c.streamId with
      | some id => "/" ++ id.text
      | none => "") ++ "\x7d"

end Command

end EventJournal
