import EventJournal.Bus
import EventJournal.Dispatch
import EventJournal.Supply
import EventJournal.Fiber.Pool

/-!
The state that the fibers of one program share: a bus, the clock, the signals and the log, and whatever
else the program keeps.
-/
namespace EventJournal

/-- The worker that a lane is to get. -/
structure Worker where
  lane : LaneId
  context : Context

structure World (H X : Type) where
  bus : Bus H
  /-- Workers that are still to be started. -/
  hired : List Worker
  signals : Signals
  supply : Supply
  records : List Record
  rest : X

/-- What the names of handlers stand for, and who is told of their failures. -/
structure Wiring (H X : Type) where
  handler : H → Handler (Fiber (World H X))
  observe : Observer (Fiber (World H X))

namespace World

variable {H X : Type}

def create (bus : Bus H) (millis : Nat) (rest : X) : World H X :=
  ⟨bus, [], .none, ⟨millis, 0⟩, [], rest⟩

def isCancelled (w : World H X) (ctx : Context) : Bool :=
  ctx.isCancelled w.signals

def withRest (w : World H X) (f : X → X) : World H X :=
  { w with rest := f w.rest }

def withBus (w : World H X) (f : Bus H → Bus H) : World H X :=
  { w with bus := f w.bus }

/-- An act on the bus. -/
def onBus (f : Bus H → α × Bus H) (w : World H X) : α × World H X :=
  let (a, bus) := f w.bus
  (a, { w with bus })

instance : Ambient (Fiber (World H X)) where
  stamp := Fiber.perform fun w =>
    let (stamp, supply) := w.supply.draw
    (stamp, { w with supply })
  now := Fiber.perform fun w => (w.supply.now, w)
  isCancelled ctx := Fiber.perform fun w => (w.isCancelled ctx, w)
  record r := Fiber.perform fun w => ((), { w with records := w.records ++ [r] })

/-- A part of what the program keeps. -/
def part (get : X → s) (set : s → X → X) : Cell (Fiber (World H X)) s where
  act f := Fiber.perform fun w =>
    let (a, y) := f (get w.rest)
    (a, w.withRest (set y))

def fire (signal : Nat) (w : World H X) : World H X :=
  { w with signals := w.signals.fire signal }

end World

end EventJournal
