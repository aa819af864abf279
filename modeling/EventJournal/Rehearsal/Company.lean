import EventJournal.Bus.Publish
import EventJournal.Relay
import EventJournal.Rehearsal.Script

/-!
Engines on test doubles. Each has a storage of its own, which counts its calls and fails on demand, and all share a
publisher that may refuse.
-/
namespace EventJournal.Rehearsal

/-- An engine to be made. -/
structure Role where
  stream : String
  parts : List Part
  config : Option EngineConfig
  strict : Option Bool
  ignored : List String
  logged : Bool

def Role.policy (r : Role) : VersionPolicy :=
  (r.config.map EngineConfig.versionPolicy).getD .sequential

/-- Counts a call of the storage, which fails if that is wanted. -/
def counted (engine call : String) (work : Play (Except StorageError α)) :
    Play (Except StorageError α) := do
  let fault ← onStage fun s =>
    let calls := (s.calls.lookup engine).getD []
    let calls := setKey call ((calls.lookup call).getD 0 + 1) calls
    (((s.faults.lookup engine).getD []).lookup call, { s with calls := setKey engine calls s.calls })
  match fault with
  | some reason => return .error (.backend reason)
  | none => work

/-- A storage in memory under watch. It promises no redelivery. -/
def storage (r : Role) : Storage Play Tally :=
  let inner := Store.inCell r.stream r.policy (storeOf r.stream)
  { name := r.stream
    blank := inner.blank
    load := fun ctx id owner => counted r.stream "load" (inner.load ctx id owner)
    persist := fun ctx stream => counted r.stream "persist" (inner.persist ctx stream)
    setAside := fun ctx stream => counted r.stream "mark" (inner.setAside ctx stream) }

def backlog (engine : String) : Backlog Play :=
  let inner := Store.backlog (storeOf engine)
  { pending := fun ctx limit => counted engine "pending" (inner.pending ctx limit)
    acknowledge := fun ctx batch => counted engine "ack" (inner.acknowledge ctx batch) }

/-- How a publish call fails on demand. -/
def refusal (way : String) (events : List Event) : PublishError :=
  match way with
  | "closed" => .closed
  | "cancelled" => .cancelled
  | "topic" => .topicNotFound ((events.head?.map Event.streamName).getD "")
  | _ => .transport "broker unreachable"

/-- A publisher that keeps what it is given, unless it is to fail. -/
def publisher : Publisher Play := fun _ events => do
  let cancels ← onStage fun s =>
    let n := s.publishCalls + 1
    (s.cancelAt == some n, { s with publishCalls := n })
  if cancels then cancelMain
  onStage fun s =>
    match s.refusals with
    | (n + 1, way) => (.error (refusal way events), { s with refusals := (n, way) })
    | (0, _) => (.ok (), { s with published := s.published ++ events })

/-- An engine with the ways into it. -/
structure Actor where
  stream : String
  strict : Bool
  commands : CommandIntake Play
  events : EventIntake Play

def Role.actor (r : Role) (publisher : Publisher Play) : Except EngineError Actor := do
  let b := Engine.Builder.create (storage r) publisher
  let b := (r.config.map b.withConfig).getD b
  let b := (r.strict.map b.withStrict).getD b
  let b := b.ignoreEvents r.ignored
  let engine ← (r.parts.foldl (Part.register r.stream) b).build
  let label := "engine"
  return {
    stream := r.stream
    strict := engine.strict
    commands :=
      if r.logged then Watched.commands engine.carryOut label else engine.carryOut
    events := if r.logged then Watched.events engine.takeIn label else engine.takeIn }

/-- Stores events of a new stream past the engine. -/
def seed (engine : String) (policy : VersionPolicy) (id : StreamId) (owner : Option OwnerId)
    (events : List (String × Json)) : Play (Except StorageError Unit) := do
  let stream := (Stream.blank engine (← Ambient.stamp)).withPolicy policy
  let rec grow (stream : Stream Tally) : List (String × Json) → Play (Stream Tally)
    | [] => return stream
    | (name, payload) :: rest => do
      match Stream.append ⟨← Ambient.stamp, ← Ambient.now⟩ name (.ok payload) stream with
      | .ok _ stream => grow stream rest
      | .error _ stream => grow stream rest
  let stream ← grow (stream.assign id owner) events
  (storeOf engine).attempt fun store => store.persist stream

end EventJournal.Rehearsal
