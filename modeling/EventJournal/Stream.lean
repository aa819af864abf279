import EventJournal.Event
import EventJournal.Version

/-!
Streams: a state folded from events. A stream remembers the version that storage holds and the events
appended since; its own version is derived from the two.
-/
namespace EventJournal

/-- States that events fold into. A failing event may leave the state changed in part. -/
class State (S : Type) extends Coded S where
  blank : S
  apply : Event → EStateM PayloadError S Unit

structure Stream (S : Type) where
  id : StreamId
  name : String
  owner : Option OwnerId
  previousVersion : Nat
  updatedAt : Timestamp
  state : S
  changes : List Event
  policy : VersionPolicy

/-- A stream without its changes, as storage keeps it. -/
structure Snapshot (S : Type) where
  id : StreamId
  name : String
  owner : Option OwnerId
  version : Nat
  updatedAt : Timestamp
  state : S
  deriving Repr

instance [Coded S] : Coded (Snapshot S) where
  shape := .record "StreamSnapshot" false <|
    .required "id" .uuid <| .required "name" .text <| .optional "owner" .uuid <|
    .required "version" .u64 <| .required "updated_at" .time <|
    .required "state" (Coded.shape S) .nil
  toVal s := (s.id.uuid, s.name, s.owner.map OwnerId.uuid, s.version, s.updatedAt,
    Coded.toVal s.state, ())
  ofVal := fun (id, name, owner, version, updatedAt, state, _) =>
    ⟨⟨id⟩, name, owner.map OwnerId.mk, version, updatedAt, Coded.ofVal state⟩
  ofVal_toVal := fun ⟨id, name, owner, version, updatedAt, state⟩ => by
    have h := Coded.ofVal_toVal state
    cases owner <;> exact congrArg (Snapshot.mk id name _ version updatedAt) h

/-- What is drawn for an event that is appended: its stamp, and the time read again once the state has taken the event
in, when the stream was last changed. -/
structure Posting where
  stamp : Stamp
  takenAt : Timestamp

/-- No time passes between the two readings. -/
instance : Coe Stamp Posting :=
  ⟨fun stamp => ⟨stamp, stamp.time⟩⟩

namespace Stream

variable {S : Type}

def version (s : Stream S) : Nat :=
  s.previousVersion + s.changes.length

/-- The version that storage must still hold for the changes to be taken. -/
def expectedVersion (s : Stream S) : ExpectedVersion :=
  .exactly s.previousVersion

def hasChanges (s : Stream S) : Bool :=
  !s.changes.isEmpty

def create (name : String) (id : StreamId) (state : S) (now : Timestamp) : Stream S :=
  ⟨id, name, none, 0, now, state, [], .sequential⟩

/-- A new stream with a fresh id. -/
def blank [State S] (name : String) (stamp : Stamp) : Stream S :=
  create name ⟨stamp.id⟩ State.blank stamp.time

def withOwner (s : Stream S) (owner : OwnerId) : Stream S :=
  { s with owner := some owner }

def withPolicy (s : Stream S) (policy : VersionPolicy) : Stream S :=
  { s with policy }

/-- Gives a stream its identity; an owner it has stays when none is given. -/
def assign (s : Stream S) (id : StreamId) (owner : Option OwnerId) : Stream S :=
  { s with id, owner := owner <|> s.owner }

def snapshot (s : Stream S) : Snapshot S :=
  ⟨s.id, s.name, s.owner, s.version, s.updatedAt, s.state⟩

def ofSnapshot (snapshot : Snapshot S) (policy : VersionPolicy) : Stream S :=
  ⟨snapshot.id, snapshot.name, snapshot.owner, snapshot.version, snapshot.updatedAt, snapshot.state,
    [], policy⟩

/-- The changes have been delivered and count as stored. -/
def clearChanges (s : Stream S) : Stream S :=
  { s with previousVersion := s.version, changes := [] }

/-- The event that would be appended next. -/
def nextEvent (s : Stream S) (stamp : Stamp) (name : String) (payload : Json) : Event :=
  .stamped stamp name s.name s.id s.owner (s.policy.eventVersion (s.version + 1)) payload

/-- Appends an event, folded into the state. If the state refuses it there is no event, but the state
stays as the refusal left it. -/
def append [State S] (posting : Posting) (name : String) (payload : Payload) :
    EStateM PayloadError (Stream S) Event := fun s =>
  match payload.encode name with
  | .error e => .error e s
  | .ok payload =>
    let event := s.nextEvent posting.stamp name payload
    match State.apply event s.state with
    | .ok () state =>
      .ok event { s with state, updatedAt := posting.takenAt, changes := s.changes ++ [event] }
    | .error e state => .error e { s with state }

/-- Takes in an event that is stored already. -/
def absorb [State S] (s : Stream S) (event : Event) : Except PayloadError (Stream S) :=
  match State.apply event s.state with
  | .ok () state =>
    .ok { s with state, previousVersion := s.previousVersion + 1, updatedAt := event.createdAt }
  | .error e _ => .error e

/-- Folds a journal from the blank state. -/
def replay [State S] (name : String) (id : StreamId) (owner : Option OwnerId) (events : List Event)
    (policy : VersionPolicy) (now : Timestamp) : Except PayloadError (Stream S) :=
  events.foldlM absorb { create name id State.blank now with owner, policy }

@[simp] theorem version_create (name : String) (id : StreamId) (state : S) (now : Timestamp) :
    (create name id state now).version = 0 := rfl

@[simp] theorem version_clearChanges (s : Stream S) : s.clearChanges.version = s.version := rfl

@[simp] theorem version_ofSnapshot (n : Snapshot S) (p : VersionPolicy) :
    (ofSnapshot n p).version = n.version := rfl

@[simp] theorem changes_clearChanges (s : Stream S) : s.clearChanges.changes = [] := rfl

end Stream

end EventJournal
