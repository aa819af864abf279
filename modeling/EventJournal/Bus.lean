import EventJournal.Publisher
import EventJournal.Routing
import EventJournal.Settings

/-!
The bus: for each stream name a topic with a fixed number of lanes. The events of one stream share a
lane, which holds a bounded number of them. This module has the state of the bus and what single acts
do to it; `H` names the handlers.
-/
namespace EventJournal

structure Lane where
  queue : List Event
  /-- The publishers that wait for room, by ticket, first come first. -/
  waiting : List Nat
  /-- Takes no more events. -/
  closed : Bool
  /-- Handed out to be served. -/
  served : Bool
  /-- Closed, with every event dispatched. -/
  finished : Bool

structure Topic (H : Type) where
  handlers : List H
  lanes : Array Lane

structure Bus (H : Type) where
  config : BusConfig
  seed : UInt32
  topics : List (String × Topic H)
  /-- Listening or closing has claimed the lanes. -/
  started : Bool
  listening : Bool
  /-- Closing has begun. -/
  shutdown : Bool
  /-- Every lane is finished. -/
  stopped : Bool
  /-- The tickets given to waiting publishers so far. -/
  tickets : Nat

/-- A lane of a topic. -/
structure LaneId where
  topic : String
  index : Nat
  deriving DecidableEq, Repr

namespace Lane

def empty : Lane :=
  ⟨[], [], false, false, false⟩

/-- Whether there is room for one more event, when places for `ahead` others are spoken for. -/
def hasRoom (l : Lane) (capacity ahead : Nat) : Bool :=
  l.queue.length + ahead < capacity

/-- How many publishers wait before the one with that ticket. -/
def ahead (l : Lane) (ticket : Nat) : Nat :=
  (l.waiting.takeWhile (· != ticket)).length

def push (l : Lane) (event : Event) : Lane :=
  { l with queue := l.queue ++ [event] }

def enqueue (l : Lane) (ticket : Nat) : Lane :=
  { l with waiting := l.waiting ++ [ticket] }

def withdraw (l : Lane) (ticket : Nat) : Lane :=
  { l with waiting := l.waiting.filter (· != ticket) }

/-- Takes out the oldest event. -/
def pop (l : Lane) : List Event × Lane :=
  (l.queue.take 1, { l with queue := l.queue.drop 1 })

/-- Closes the lane and takes out all it holds. -/
def drain (l : Lane) : List Event × Lane :=
  (l.queue, { l with queue := [], closed := true })

@[simp] theorem queue_push (l : Lane) (event : Event) :
    (l.push event).queue = l.queue ++ [event] := rfl

@[simp] theorem queue_enqueue (l : Lane) (ticket : Nat) : (l.enqueue ticket).queue = l.queue := rfl

@[simp] theorem queue_withdraw (l : Lane) (ticket : Nat) : (l.withdraw ticket).queue = l.queue := rfl

theorem pop_append (l : Lane) : l.pop.1 ++ l.pop.2.queue = l.queue := by
  exact List.take_append_drop 1 l.queue

end Lane

namespace Bus

variable {H : Type}

def create? (config : BusConfig) (seed : UInt32) : Except BusError (Bus H) := do
  config.validate
  return ⟨config, seed, [], false, false, false, false, 0⟩

def topic? (bus : Bus H) (name : String) : Option (Topic H) :=
  bus.topics.lookup name

def modifyTopic (name : String) (f : Topic H → Topic H) :
    List (String × Topic H) → List (String × Topic H)
  | [] => []
  | (n, t) :: rest => if n = name then (n, f t) :: rest else (n, t) :: modifyTopic name f rest

/-- Appends handlers to a topic. A new topic is made only before listening. -/
def subscribe (bus : Bus H) (name : String) (handlers : List H) : Except BusError (Bus H) :=
  if bus.shutdown then .error .closed
  else if (bus.topic? name).isSome then
    let add (t : Topic H) := { t with handlers := t.handlers ++ handlers }
    .ok { bus with topics := modifyTopic name add bus.topics }
  else if bus.listening then .error .alreadyListening
  else
    let topic : Topic H := ⟨handlers, Array.replicate bus.config.partitions .empty⟩
    .ok { bus with topics := bus.topics ++ [(name, topic)] }

def handlers (bus : Bus H) (topic : String) : List H :=
  ((bus.topic? topic).map Topic.handlers).getD []

def lane? (bus : Bus H) (id : LaneId) : Option Lane := do
  (← bus.topic? id.topic).lanes[id.index]?

def modifyLane (bus : Bus H) (id : LaneId) (f : Lane → Lane) : Bus H :=
  let change (t : Topic H) := { t with lanes := t.lanes.modify id.index f }
  { bus with topics := modifyTopic id.topic change bus.topics }

/-- The lane of an event. -/
def laneOf (bus : Bus H) (event : Event) : Except PublishError LaneId :=
  match bus.topic? event.streamName with
  | some t =>
    .ok ⟨event.streamName, Routing.lane bus.seed event.routingKey.toUTF8.toList t.lanes.size⟩
  | none => .error (.topicNotFound event.streamName)

/-- The lane that an event is to be sent into, unless the bus is closing. -/
def route (bus : Bus H) (event : Event) : Except PublishError LaneId :=
  if bus.shutdown then .error .closed else bus.laneOf event

/-- What becomes of an event that is brought to a lane by a publisher behind `ahead` others; nothing
yet, if the publisher has to wait. -/
def verdict? (bus : Bus H) (lane : Lane) (ahead : Nat) (cancelled : Bool) :
    Option (Except PublishError Unit) :=
  if lane.closed then some (.error .closed)
  else if lane.hasRoom bus.config.capacity ahead then some (.ok ())
  else if bus.shutdown then some (.error .closed)
  else if cancelled then some (.error .cancelled)
  else none

/-- What a publisher is told that brings an event to a lane. -/
inductive Offer where
  | decided (result : Except PublishError Unit)
  | waits (ticket : Nat)

/-- Puts the event into the lane if it is accepted. -/
def settleOffer (bus : Bus H) (id : LaneId) (event : Event) (result : Except PublishError Unit) :
    Bus H :=
  match result with
  | .ok () => bus.modifyLane id (·.push event)
  | .error _ => bus

/-- Brings an event to a lane. Who finds no room besides that of those who wait gets a ticket. -/
def offer (bus : Bus H) (id : LaneId) (event : Event) (cancelled : Bool) : Offer × Bus H :=
  match bus.lane? id with
  | none => (.decided (.error .closed), bus)
  | some lane =>
    match bus.verdict? lane lane.waiting.length cancelled with
    | some result => (.decided result, bus.settleOffer id event result)
    | none =>
      (.waits bus.tickets,
        { bus.modifyLane id (·.enqueue bus.tickets) with tickets := bus.tickets + 1 })

/-- What becomes of the event of a waiting publisher. -/
def claim? (bus : Bus H) (id : LaneId) (ticket : Nat) (cancelled : Bool) :
    Option (Except PublishError Unit) :=
  match bus.lane? id with
  | none => some (.error .closed)
  | some lane => bus.verdict? lane (lane.ahead ticket) cancelled

/-- Ends the wait of a publisher, whose event has a verdict. -/
def claim (bus : Bus H) (id : LaneId) (ticket : Nat) (event : Event) (cancelled : Bool) :
    Except PublishError Unit × Bus H :=
  let result := (bus.claim? id ticket cancelled).getD (.error .closed)
  (result, (bus.modifyLane id (·.withdraw ticket)).settleOffer id event result)

/-- What a worker is to do next. -/
inductive Turn where
  /-- Dispatch these, then come back. -/
  | goOn (events : List Event)
  /-- Dispatch these, which are the last ones. -/
  | finish (events : List Event)

/-- Whether the worker of a lane has something to do. -/
def hasTurn (bus : Bus H) (id : LaneId) (cancelled : Bool) : Bool :=
  bus.shutdown || cancelled || ((bus.lane? id).map fun l => !l.queue.isEmpty).getD true

/-- Closes a lane and takes out all it holds. -/
def drain (bus : Bus H) (id : LaneId) : List Event × Bus H :=
  match bus.lane? id with
  | some lane => (lane.drain.1, bus.modifyLane id fun l => l.drain.2)
  | none => ([], bus)

/-- Gives a worker its next event, or on closing and cancellation all that are left. -/
def takeTurn (bus : Bus H) (id : LaneId) (cancelled : Bool) : Turn × Bus H :=
  match bus.lane? id with
  | none => (.finish [], bus)
  | some lane =>
    if bus.shutdown || cancelled then (.finish lane.drain.1, bus.modifyLane id fun l => l.drain.2)
    else (.goOn lane.pop.1, bus.modifyLane id fun l => l.pop.2)

def finishLane (bus : Bus H) (id : LaneId) : Bus H :=
  bus.modifyLane id fun l => { l with finished := true }

def laneIds (bus : Bus H) : List LaneId :=
  bus.topics.flatMap fun (name, t) => (List.range t.lanes.size).map fun i => ⟨name, i⟩

/-- The lanes that nobody serves yet. -/
def unserved (bus : Bus H) : List LaneId :=
  bus.laneIds.filter fun id => ((bus.lane? id).map fun l => !l.served).getD false

/-- Claims the lanes that nobody serves yet. -/
def takeLanes (bus : Bus H) : List LaneId × Bus H :=
  let serve (t : Topic H) := { t with lanes := t.lanes.map fun l => { l with served := true } }
  (bus.unserved, { bus with topics := bus.topics.map fun (n, t) => (n, serve t) })

/-- Whether every lane that is served is finished. -/
def isDrained (bus : Bus H) : Bool :=
  bus.topics.all fun (_, t) => t.lanes.all fun l => !l.served || l.finished

/-- Starts listening, which can be done once. -/
def beginListening (bus : Bus H) : Except BusError (List LaneId) × Bus H :=
  if bus.shutdown then (.error .closed, bus)
  else if bus.started then (.error .alreadyListening, bus)
  else
    let (ids, bus) := takeLanes { bus with started := true, listening := true }
    (.ok ids, bus)

/-- Starts closing. The lanes fall to the first closing of a bus that never listened. -/
def beginClosing (bus : Bus H) : Option (List LaneId) × Bus H :=
  if bus.started then (none, { bus with shutdown := true })
  else
    let (ids, bus) := takeLanes { bus with started := true, shutdown := true }
    (some ids, bus)

def stop (bus : Bus H) : Bus H :=
  { bus with stopped := true }

def text (bus : Bus H) : String :=
  "PartitionedBus \x7b config: BusConfig \x7b partitions: " ++ Nat.repr bus.config.partitions ++
    ", capacity: " ++ Nat.repr bus.config.capacity ++ " \x7d, listening: " ++ truth bus.listening ++
    ", closed: " ++ truth bus.shutdown ++ " \x7d"
where
  truth (b : Bool) : String :=
    if b then "true" else "false"

@[simp] theorem shutdown_modifyLane (bus : Bus H) (id : LaneId) (f : Lane → Lane) :
    (bus.modifyLane id f).shutdown = bus.shutdown := rfl

@[simp] theorem started_modifyLane (bus : Bus H) (id : LaneId) (f : Lane → Lane) :
    (bus.modifyLane id f).started = bus.started := rfl

end Bus

end EventJournal
