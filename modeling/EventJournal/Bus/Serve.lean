import EventJournal.World

/-!
Serving the lanes. Listening gives each lane a worker, which dispatches its events one by one. On closing or
cancellation a worker closes its lane, dispatches what is left and ends; a bus that never listened is
drained by whoever closes it.
-/
namespace EventJournal.Bus

variable {H X : Type}

def target := "tidewater_events::partitioned_bus"

def note (message : String) (fields : List (String × Json)) (span : Option Span) :
    Fiber (World H X) Unit :=
  Ambient.record ⟨.info, target, message, fields, span⟩

/-- Hands an event to the handlers that its topic has at that time. -/
def deliver (wiring : Wiring H X) (topic : String) (ctx : Context) (event : Event) :
    Fiber (World H X) Unit := do
  let handlers ← Fiber.perform fun w => (w.bus.handlers topic, w)
  dispatch (handlers.map wiring.handler) wiring.observe ctx event

def deliverAll (wiring : Wiring H X) (topic : String) (ctx : Context) :
    List Event → Fiber (World H X) Unit
  | [] => return ()
  | event :: rest => do
    deliver wiring topic ctx event
    deliverAll wiring topic ctx rest

/-- Dispatches the last events of a lane. They see a context that is not cancelled. -/
def finish (wiring : Wiring H X) (id : LaneId) (events : List Event) : Fiber (World H X) Unit := do
  deliverAll wiring id.topic .background events
  Fiber.perform fun w => ((), w.withBus (·.finishLane id))

/-- One turn of a worker; true if there is another. -/
def turn (wiring : Wiring H X) (worker : Worker) : Fiber (World H X) Bool := do
  let next : Turn ← Fiber.await (fun w => w.bus.hasTurn worker.lane (w.isCancelled worker.context))
    fun w => w.onBus fun bus => bus.takeTurn worker.lane (w.isCancelled worker.context)
  match next with
  | .goOn events =>
    deliverAll wiring worker.lane.topic worker.context events
    return true
  | .finish events =>
    finish wiring worker.lane events
    return false

/-- The jobs of the workers that were hired since. -/
def calls (wiring : Wiring H X) : Pool.Calls (World H X) := fun w =>
  (w.hired.map fun worker => Job.loop (turn wiring worker), { w with hired := [] })

/-- Listens until the context is cancelled or the bus is closed, and every lane is finished. -/
def listen (ctx : Context) : Fiber (World H X) (Except BusError Unit) := do
  let begun : Except BusError (List LaneId) ← Fiber.perform fun w =>
    let (begun, bus) := w.bus.beginListening
    let lanes := begun.toOption.getD []
    (begun, { w with bus, hired := w.hired ++ lanes.map fun id => ⟨id, { ctx with span := none }⟩ })
  match begun with
  | .error e => return .error e
  | .ok lanes =>
    let bus ← Fiber.perform fun w => (w.bus, w)
    note "event bus listening"
      [("topics", .nat bus.topics.length), ("partitions", .nat bus.config.partitions),
        ("lanes", .nat lanes.length)] ctx.span
    if lanes.isEmpty then
      Fiber.await (fun w => w.bus.shutdown || w.isCancelled ctx) fun w => ((), w)
    Fiber.await (fun w => w.bus.isDrained) fun w => ((), w)
    note "event bus stopped" [] ctx.span
    Fiber.perform fun w => (.ok (), w.withBus stop)

/-- Drains lanes one after the other. -/
def drainAll (wiring : Wiring H X) : List LaneId → Fiber (World H X) Unit
  | [] => return ()
  | id :: rest => do
    let events ← Fiber.perform fun w => w.onBus fun bus => bus.drain id
    finish wiring id events
    drainAll wiring rest

/-- Accepts no more events, and ends when all that were accepted are dispatched. -/
def close (wiring : Wiring H X) : Fiber (World H X) Unit := do
  let claimed : Option (List LaneId) ← Fiber.perform fun w => w.onBus beginClosing
  match claimed with
  | none => Fiber.await (fun w => w.bus.stopped) fun w => ((), w)
  | some lanes =>
    drainAll wiring lanes
    note "event bus closed before listening" [("lanes", .nat lanes.length)] none
    Fiber.perform fun w => ((), w.withBus stop)

def subscribeTo (topic : String) (handlers : List H) : Fiber (World H X) (Except BusError Unit) :=
  Fiber.perform fun w =>
    match w.bus.subscribe topic handlers with
    | .ok bus => (.ok (), { w with bus })
    | .error e => (.error e, w)

end EventJournal.Bus
