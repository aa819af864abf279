import EventJournal.Bus.Publish
import EventJournal.Bus.Serve
import EventJournal.Proofs.Crowd.Told

/-!
The programs of a bus that give notice of what they do: who is in charge of a lane, what was taken out of
it, and when the dispatch of an event begins and ends. Without their notices they are the programs that run: see
`Noted.erase_turn` for a worker, `Noted.erase_listen` and `Noted.erase_close`. To publish and to subscribe needs no
notices of its own, since what lanes accept shows in the bus.
-/
namespace EventJournal.Bus

inductive Notice where
  /-- A lane has accepted an event. -/
  | accepted (id : LaneId) (event : Event)
  /-- Listening has handed out the lanes. -/
  | opened
  /-- A worker is in charge of a lane. -/
  | serves (id : LaneId)
  /-- A closing is in charge of these lanes, which are all. -/
  | claimed (ids : List LaneId)
  /-- Events were taken out of a lane, `last` ones when it was closed. -/
  | took (id : LaneId) (events : List Event) (last : Bool)
  /-- The dispatch of an event begins. -/
  | begun (id : LaneId) (event : Event)
  | ended (id : LaneId) (event : Event)
  | finished (id : LaneId)
  /-- Every lane is finished. -/
  | drained

variable {H X : Type}

abbrev Noted (H X α : Type) :=
  Told (World H X) Notice α

namespace Noted

open Told

def deliver (wiring : Wiring H X) (id : LaneId) (ctx : Context) (event : Event) : Noted H X Unit := do
  tell (.begun id event)
  ofFiber (Bus.deliver wiring id.topic ctx event)
  tell (.ended id event)

def deliverAll (wiring : Wiring H X) (id : LaneId) (ctx : Context) : List Event → Noted H X Unit
  | [] => return ()
  | event :: rest => do
    deliver wiring id ctx event
    deliverAll wiring id ctx rest

def finish (wiring : Wiring H X) (id : LaneId) (events : List Event) : Noted H X Unit := do
  deliverAll wiring id .background events
  ofFiber (Fiber.perform fun w => ((), w.withBus (·.finishLane id)))
  tell (.finished id)

def turn (wiring : Wiring H X) (worker : Worker) : Noted H X Bool := do
  let next : Turn ← ofFiber <|
    Fiber.await (fun w => w.bus.hasTurn worker.lane (w.isCancelled worker.context))
      fun w => w.onBus fun bus => bus.takeTurn worker.lane (w.isCancelled worker.context)
  match next with
  | .goOn events =>
    tell (.took worker.lane events false)
    deliverAll wiring worker.lane worker.context events
    return true
  | .finish events =>
    tell (.took worker.lane events true)
    finish wiring worker.lane events
    return false

def listen (ctx : Context) : Noted H X (Except BusError Unit) := do
  let begun : Except BusError (List LaneId) ← ofFiber <| Fiber.perform fun w =>
    let (begun, bus) := w.bus.beginListening
    let lanes := begun.toOption.getD []
    (begun, { w with bus, hired := w.hired ++ lanes.map fun id => ⟨id, { ctx with span := none }⟩ })
  match begun with
  | .error e => return .error e
  | .ok lanes =>
    tell .opened
    let bus ← ofFiber <| Fiber.perform fun w => (w.bus, w)
    ofFiber <| note "event bus listening"
      [("topics", .nat bus.topics.length), ("partitions", .nat bus.config.partitions),
        ("lanes", .nat lanes.length)] ctx.span
    if lanes.isEmpty then
      ofFiber <| Fiber.await (fun w => w.bus.shutdown || w.isCancelled ctx) fun w => ((), w)
    ofFiber <| Fiber.await (fun w => w.bus.isDrained) fun w => ((), w)
    tell .drained
    ofFiber <| note "event bus stopped" [] ctx.span
    ofFiber <| Fiber.perform fun w => (.ok (), w.withBus stop)

def drainAll (wiring : Wiring H X) : List LaneId → Noted H X Unit
  | [] => return ()
  | id :: rest => do
    let events ← ofFiber <| Fiber.perform fun w => w.onBus fun bus => bus.drain id
    tell (.took id events true)
    finish wiring id events
    drainAll wiring rest

def close (wiring : Wiring H X) : Noted H X Unit := do
  let claimed : Option (List LaneId) ← ofFiber <| Fiber.perform fun w => w.onBus beginClosing
  match claimed with
  | none =>
    ofFiber <| Fiber.await (fun w => w.bus.stopped) fun w => ((), w)
    tell .drained
  | some lanes =>
    tell (.claimed lanes)
    drainAll wiring lanes
    tell .drained
    ofFiber <| note "event bus closed before listening" [("lanes", .nat lanes.length)] none
    ofFiber <| Fiber.perform fun w => ((), w.withBus stop)

section Erase

variable (wiring : Wiring H X)

theorem erase_tell (n : Notice) : (tell n : Noted H X Unit).erase = .done () := rfl

theorem erase_deliver (id : LaneId) (ctx : Context) (event : Event) :
    (deliver wiring id ctx event).erase = Bus.deliver wiring id.topic ctx event := by
  simp only [deliver, bind_eq, erase_bind, erase_tell, erase_ofFiber, Fiber.bind_done]
  exact Fiber.bind_pure _

theorem erase_deliverAll (id : LaneId) (ctx : Context) (events : List Event) :
    (deliverAll wiring id ctx events).erase = Bus.deliverAll wiring id.topic ctx events := by
  induction events with
  | nil => rfl
  | cons event rest ih =>
    simp only [deliverAll, bind_eq, erase_bind, erase_deliver, ih]
    rfl

theorem erase_finish (id : LaneId) (events : List Event) :
    (finish wiring id events).erase = Bus.finish wiring id events := by
  simp only [finish, bind_eq, erase_bind, erase_deliverAll, erase_ofFiber, erase_tell]
  rfl

theorem erase_turn (worker : Worker) : (turn wiring worker).erase = Bus.turn wiring worker := by
  simp only [turn, bind_eq, erase_bind, erase_ofFiber]
  refine congrArg (Fiber.bind · _) (funext fun next => ?_)
  cases next with
  | goOn events =>
    simp only [erase_bind, erase_tell, erase_deliverAll, Fiber.bind_done]
    rfl
  | finish events =>
    simp only [erase_bind, erase_tell, erase_finish, Fiber.bind_done]
    rfl

theorem erase_listen (ctx : Context) :
    (listen ctx : Noted H X (Except BusError Unit)).erase = Bus.listen ctx := by
  simp only [listen, bind_eq, erase_bind, erase_ofFiber]
  refine congrArg (Fiber.bind · _) (funext fun begun => ?_)
  cases begun with
  | error e => rfl
  | ok lanes =>
    simp only [erase_bind, erase_tell, Fiber.bind_done]
    cases lanes with
    | nil => rfl
    | cons id rest => rfl

theorem erase_drainAll (ids : List LaneId) : (drainAll wiring ids).erase = Bus.drainAll wiring ids := by
  induction ids with
  | nil => rfl
  | cons id rest ih =>
    simp only [drainAll, bind_eq, erase_bind, erase_ofFiber, erase_tell, erase_finish, ih, Fiber.bind_done]
    rfl

theorem erase_close : (close wiring).erase = Bus.close wiring := by
  simp only [close, bind_eq, erase_bind, erase_ofFiber]
  refine congrArg (Fiber.bind · _) (funext fun claimed => ?_)
  cases claimed with
  | none => rfl
  | some lanes =>
    simp only [erase_bind, erase_tell, erase_drainAll, erase_ofFiber, Fiber.bind_done]
    rfl

end Erase

end Noted

end EventJournal.Bus
