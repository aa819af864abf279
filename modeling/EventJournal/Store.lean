import EventJournal.Codec
import EventJournal.Outbox
import EventJournal.Stream
import EventJournal.Text.Blank

/-!
Storage of one kind of stream in memory: for each stream an encoded snapshot and the journal of its
events, and an outbox. A stream is taken only at the version from which it was loaded.
-/
namespace EventJournal

inductive StorageError where
  | notFound (name : String) (id : StreamId)
  | versionConflict (name : String) (id : StreamId) (expected found : Nat)
  | nameMismatch (expected found : String)
  | invalidName
  | codec (error : CodecError)
  | backend (reason : String)
  deriving DecidableEq, Repr

namespace StorageError

def message : StorageError → String
  | .notFound name id => "stream " ++ name ++ "/" ++ id.text ++ " not found"
  | .versionConflict name id expected found =>
    "version conflict on " ++ name ++ "/" ++ id.text ++ ": expected " ++ Nat.repr expected ++
      ", found " ++ Nat.repr found
  | .nameMismatch expected found => "storage holds " ++ expected ++ " streams, got " ++ found
  | .invalidName => "stream name must not be empty"
  | .codec e => e.message
  | .backend r => "storage backend failure: " ++ r

def isConflict : StorageError → Bool
  | .versionConflict _ _ _ _ => true
  | _ => false

end StorageError

/-- What storage promises about events whose publication failed. -/
inductive DeliveryGuarantee where
  /-- They are kept until they are delivered. -/
  | atLeastOnce
  /-- They are lost. -/
  | bestEffort
  deriving DecidableEq, Repr

def DeliveryGuarantee.index : DeliveryGuarantee → Fin 2
  | .atLeastOnce => 0
  | .bestEffort => 1

def DeliveryGuarantee.ofIndex (i : Fin 2) : DeliveryGuarantee :=
  if i = 0 then .atLeastOnce else .bestEffort

instance : Coded DeliveryGuarantee where
  shape := .choice ["AtLeastOnce", "BestEffort"]
  toVal := DeliveryGuarantee.index
  ofVal := DeliveryGuarantee.ofIndex
  ofVal_toVal d := by cases d <;> rfl

/-- What is kept of one stream. The owner is that of the first stream stored under the id. -/
structure Entry where
  owner : Option OwnerId
  version : Nat
  snapshot : String
  journal : List Event

structure Store (S : Type) where
  name : String
  codec : Codec
  policy : VersionPolicy
  entries : List (StreamId × Entry)
  outbox : Outbox

namespace Store

variable {S : Type}

def create? (name : String) (codec : Codec) (policy : VersionPolicy) :
    Except StorageError (Store S) :=
  if (Text.trim name.toList).isEmpty then .error .invalidName
  else .ok ⟨name, codec, policy, [], .empty⟩

def entry? (store : Store S) (id : StreamId) : Option Entry :=
  store.entries.lookup id

/-- Puts the entry of a stream in the place of the one it had. -/
def setEntry (id : StreamId) (entry : Entry) : List (StreamId × Entry) → List (StreamId × Entry)
  | [] => [(id, entry)]
  | (i, e) :: rest => if i = id then (id, entry) :: rest else (i, e) :: setEntry id entry rest

def versionOf (store : Store S) (id : StreamId) : Option Nat :=
  (store.entry? id).map Entry.version

def history (store : Store S) (id : StreamId) : Except StorageError (List Event) :=
  match store.entry? id with
  | some e => .ok e.journal
  | none => .error (.notFound store.name id)

def ids (store : Store S) : List StreamId :=
  store.entries.map Prod.fst

def blankStream [State S] (store : Store S) (stamp : Stamp) : Stream S :=
  (Stream.blank store.name stamp).withPolicy store.policy

/-- A stream from its snapshot. With an owner given, the streams of others are not found. -/
def load [State S] (store : Store S) (id : StreamId) (owner : Option OwnerId) :
    Except StorageError (Stream S) :=
  match store.entry? id with
  | none => .error (.notFound store.name id)
  | some e =>
    if owner.isSome ∧ e.owner ≠ owner then .error (.notFound store.name id)
    else
      match store.codec.decodeValue (Snapshot S) (Text.symbols e.snapshot) with
      | .ok snapshot => .ok (.ofSnapshot snapshot store.policy)
      | .error err => .error (.codec err)

/-- A stream folded from its journal. -/
def replay [State S] (store : Store S) (id : StreamId) (now : Timestamp) :
    Except StorageError (Stream S) :=
  match store.entry? id with
  | none => .error (.notFound store.name id)
  | some e =>
    (Stream.replay store.name id e.owner e.journal store.policy now).mapError
      fun err => .codec (.decode err.message)

def checkName (store : Store S) (stream : Stream S) : Except StorageError Unit :=
  if stream.name = store.name then .ok () else .error (.nameMismatch store.name stream.name)

/-- Takes a stream's snapshot and changes, if storage still holds the version it started from. -/
def persist [State S] (store : Store S) (stream : Stream S) : Except StorageError (Store S) := do
  store.checkName stream
  let snapshot ← (store.codec.encodeValue stream.snapshot).mapError .codec
  let entry := (store.entry? stream.id).getD ⟨stream.owner, 0, "", []⟩
  if stream.expectedVersion.admits entry.version then
    let entry :=
      { entry with version := stream.version, snapshot, journal := entry.journal ++ stream.changes }
    return { store with entries := setEntry stream.id entry store.entries }
  else throw (.versionConflict store.name stream.id stream.previousVersion entry.version)

/-- Keeps a stream's changes in the outbox. -/
def setAside (store : Store S) (stream : Stream S) (now : Timestamp) :
    Except StorageError (Store S) := do
  store.checkName stream
  let batch (id : Nat) : PendingBatch :=
    ⟨id, store.name, stream.id, stream.version, stream.changes, now⟩
  return { store with outbox := store.outbox.record batch }

def pending (store : Store S) (limit : Nat) : List PendingBatch :=
  store.outbox.pending limit

def acknowledge (store : Store S) (batch : Nat) : Store S :=
  { store with outbox := store.outbox.acknowledge batch }

def delivery (_ : Store S) : DeliveryGuarantee :=
  .atLeastOnce

end Store

end EventJournal
