import EventJournal.World

/-!
Publishing into the lanes. Events go in one after the other; where a lane is full the publisher waits,
and the rest of its batch with it.
-/
namespace EventJournal.Bus

variable {H X : Type}

/-- Sends one event into its lane. -/
def send (ctx : Context) (event : Event) : ExceptT PublishError (Fiber (World H X)) Unit := do
  let id ← ExceptT.mk (Fiber.perform fun w => (w.bus.route event, w))
  let offer : Offer ← ExceptT.lift <| Fiber.perform fun w =>
    w.onBus fun bus => bus.offer id event (w.isCancelled ctx)
  match offer with
  | .decided result => ExceptT.mk (pure result)
  | .waits ticket =>
    ExceptT.mk <| Fiber.await (fun w => (w.bus.claim? id ticket (w.isCancelled ctx)).isSome) fun w =>
      w.onBus fun bus => bus.claim id ticket event (w.isCancelled ctx)

def sendAll (ctx : Context) : List Event → ExceptT PublishError (Fiber (World H X)) Unit
  | [] => return ()
  | event :: rest => do
    send ctx event
    sendAll ctx rest

def publisher : Publisher (Fiber (World H X)) := fun ctx events => (sendAll ctx events).run

end EventJournal.Bus
