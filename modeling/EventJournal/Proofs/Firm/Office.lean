import EventJournal.Proofs.Bus.Tasks
import EventJournal.Proofs.Crowd.Composition
import EventJournal.Proofs.Engine.Custody
import EventJournal.Proofs.Handler.Dispatch

/-!
The whole of a system, called a firm: engines and relays that share a store, and a bus on which they publish and on
which the events of that store have a topic. The handlers of the topic run once per event, each with a diary of what it
remembers; they are the same all the time. Whoever else is on the bus may do what he likes, as may the other handlers.
An office is the state beside the store: the bus, the clock, the signals and the diaries.
-/
namespace EventJournal

open History

variable {H X Y S α : Type}

/-- What those on a bus share that keep diaries. -/
abbrev Office (H Y : Type) := World H (Diaries H × Y)

namespace Office

def diaries (w : Office H Y) : Diaries H :=
  w.rest.1

variable [DecidableEq H]

/-- The diary of a handler. -/
def diary (k : H) : Cell (Fiber (Office H Y)) Diary :=
  World.part (fun x => x.1 k) fun d x => (Function.update x.1 k d, x.2)

end Office

/-- A publisher that may let only a first part of a batch through, and then fails for some reason. -/
def Bus.interrupted (plan : Context → List Event → Fiber (World H X) (Option (Nat × PublishError))) :
    Publisher (Fiber (World H X)) := fun ctx events => do
  match ← plan ctx events with
  | none => publisher ctx events
  | some (n, reason) => do
    let _ ← publisher ctx (events.take n)
    return .error reason

/-- The handlers on a bus and what they are to do; those of the topic run once per event. -/
structure Firm (H Y : Type) where
  topic : String
  handlers : List H
  inner : H → Handler (Fiber (Office H Y))
  observe : Observer (Fiber (Office H Y))

/-- Programs that do no more to the bus than a visit, and do not write in the diaries. -/
def Fiber.Civil (config : BusConfig) (seed : UInt32) (t : Fiber (Office H Y) α) : Prop :=
  t.Abides (fun w => w.bus.Shaped config seed) fun w w' =>
    Bus.Visit config seed w.bus w'.bus ∧ w'.hired = w.hired ∧ w'.diaries = w.diaries

/-- All changes are events of the stream's name. -/
def Stream.Named (s : Stream S) : Prop :=
  ∀ e ∈ s.changes, e.streamName = s.name

namespace Firm

section Premises

variable (config : BusConfig) (seed : UInt32)

/-- A publisher on the bus, who may be interrupted. -/
def Publishes (p : Publisher (Fiber (Office H Y))) : Prop :=
  ∃ plan, (∀ ctx events, (plan ctx events).Civil config seed) ∧ p = Bus.interrupted plan

/-- What an engine is given publishes on the bus. Its controllers are civil and add events of the stream's name
only, and the storage has no faults. -/
structure Employs (staff : Staff (Office H Y) S) : Prop where
  publisher : Publishes config seed staff.publisher
  commands : ∀ n c, (n, c) ∈ staff.commands → ∀ ctx command s,
    ((c.controller ctx command).run.run s).Civil config seed
  events : ∀ n c, (n, c) ∈ staff.events → ∀ ctx event s,
    ((c.controller.handle ctx event).run.run s).Civil config seed
  named : staff.Keeps Stream.Named
  faultless : staff.fault = fun _ _ => return none

def Serves : Call (Office H Y) S → Prop
  | .command staff _ _ => Employs config seed staff
  | .event staff _ _ => Employs config seed staff
  | .pass publisher _ _ => Publishes config seed publisher

/-- The handlers use the bus only through its operations and leave the diaries to those who keep them; those
of the topic never fail. -/
structure Sound (firm : Firm H Y) : Prop where
  courteous : ∀ k, (firm.inner k).Courteous config seed
  discreet : ∀ k, (firm.inner k).Abides (fun _ => True) fun w w' => w'.diaries = w.diaries
  observe_courteous : ∀ e, (firm.observe e).Courteous config seed
  observe_discreet : ∀ e, (firm.observe e).Abides (fun _ => True) fun w w' => w'.diaries = w.diaries
  succeeds : ∀ k ∈ firm.handlers, ∀ ctx event, ((firm.inner k).handle ctx event).Yields (· = .ok ())

end Premises

variable [DecidableEq H]

def wiring (firm : Firm H Y) : Wiring H (Diaries H × Y) where
  handler k :=
    if k ∈ firm.handlers then (firm.inner k).onceNoted (Office.diary k) else firm.inner k
  observe := firm.observe

/-- The rules of the bus, but nobody from outside writes in the diaries. -/
def rules (firm : Firm H Y) : Rules (Office H Y) Bus.Notice Bus.Ending (Office H Y → Office H Y) where
  call := (Bus.rules firm.wiring).call
  again := (Bus.rules firm.wiring).again
  watch := (Bus.rules firm.wiring).watch
  outside f w := { f w with bus := w.bus, hired := w.hired, rest := (w.diaries, (f w).rest.2) }

/-- Engines and relays are guests of the bus. -/
def house (firm : Firm H Y) : Rules (Store S × Office H Y) (Deed ⊕ Bus.Notice) (Outcome ⊕ Bus.Ending)
    (Office H Y → Office H Y) :=
  .house Errand.recorded firm.rules

/-- Calls on a store that is empty, and tasks on a bus, none of them begun. The diaries are blank. -/
def crowd [State S] (firm : Firm H Y) (codec : Codec) (policy : VersionPolicy) (bus : Bus H) (millis : Nat)
    (y : Y) (calls : List (Call (Office H Y) S)) (tasks : List (Bus.Task H)) :
    Crowd (Store S × Office H Y) (Deed ⊕ Bus.Notice) (Outcome ⊕ Bus.Ending) :=
  .gather (.fresh firm.topic codec policy, World.create bus millis (fun _ => .blank, y))
    ((calls.map (Call.errand firm.topic policy)).map Told.guest ++
      (tasks.map (Bus.Task.job firm.wiring)).map Told.host)

end Firm

end EventJournal
