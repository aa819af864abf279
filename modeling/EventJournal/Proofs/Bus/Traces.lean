import EventJournal.Bus.Serve
import EventJournal.Proofs.Handler.Trace
import Mathlib.Data.List.Forall2

/-!
The traces of a lane. Whoever serves it takes out its events and dispatches them one after the other, each to the
handlers that its topic has at that time, so what is told of them is the trace of each event after that of the one
before. Whatever else happens on the bus or beside it may happen at any time.
-/
namespace EventJournal.Bus

open Dispatch History Told

variable {H X : Type}

inductive Entry (H : Type) where
  /-- Events were taken out of a lane. -/
  | took (id : LaneId) (events : List Event)
  /-- The dispatch of an event begins, to these handlers. -/
  | begun (event : Event) (handlers : List H)
  | mark (m : Mark)

abbrev Recorded (H X α : Type) :=
  Told (World H X) (Entry H) α

namespace Recorded

def deliver (wiring : Wiring H X) (topic : String) (ctx : Context) (event : Event) : Recorded H X Unit := do
  let handlers ← ofFiber <| Fiber.perform fun w => (w.bus.handlers topic, w)
  tell (.begun event handlers)
  dispatch (marked .mark (handlers.map wiring.handler)) (wiring.observe.marked .mark) ctx event

def deliverAll (wiring : Wiring H X) (topic : String) (ctx : Context) : List Event → Recorded H X Unit
  | [] => return ()
  | event :: rest => do
    deliver wiring topic ctx event
    deliverAll wiring topic ctx rest

def finish (wiring : Wiring H X) (id : LaneId) (events : List Event) : Recorded H X Unit := do
  deliverAll wiring id.topic .background events
  ofFiber <| Fiber.perform fun w => ((), w.withBus (·.finishLane id))

def turn (wiring : Wiring H X) (worker : Worker) : Recorded H X Bool := do
  let next : Turn ← ofFiber <|
    Fiber.await (fun w => w.bus.hasTurn worker.lane (w.isCancelled worker.context))
      fun w => w.onBus fun bus => bus.takeTurn worker.lane (w.isCancelled worker.context)
  match next with
  | .goOn events =>
    tell (.took worker.lane events)
    deliverAll wiring worker.lane.topic worker.context events
    return true
  | .finish events =>
    tell (.took worker.lane events)
    finish wiring worker.lane events
    return false

def drainAll (wiring : Wiring H X) : List LaneId → Recorded H X Unit
  | [] => return ()
  | id :: rest => do
    let events ← ofFiber <| Fiber.perform fun w => w.onBus fun bus => bus.drain id
    tell (.took id events)
    finish wiring id events
    drainAll wiring rest

section Erase

variable (wiring : Wiring H X)

theorem erase_tell (n : Entry H) : (tell n : Recorded H X Unit).erase = .done () := rfl

theorem erase_deliver (topic : String) (ctx : Context) (event : Event) :
    (deliver wiring topic ctx event).erase = Bus.deliver wiring topic ctx event := by
  simp only [deliver, bind_eq, erase_bind, erase_ofFiber, erase_tell, erase_dispatch, Fiber.bind_done]
  rfl

theorem erase_deliverAll (topic : String) (ctx : Context) (events : List Event) :
    (deliverAll wiring topic ctx events).erase = Bus.deliverAll wiring topic ctx events := by
  induction events with
  | nil => rfl
  | cons event rest ih =>
    simp only [deliverAll, bind_eq, erase_bind, erase_deliver, ih]
    rfl

theorem erase_finish (id : LaneId) (events : List Event) :
    (finish wiring id events).erase = Bus.finish wiring id events := by
  simp only [finish, bind_eq, erase_bind, erase_deliverAll, erase_ofFiber]
  rfl

theorem erase_turn (worker : Worker) : (turn wiring worker).erase = Bus.turn wiring worker := by
  simp only [turn, bind_eq, erase_bind, erase_ofFiber]
  refine congrArg (Fiber.bind · _) (funext fun next => ?_)
  cases next with
  | goOn events =>
    simp only [erase_bind, erase_tell, erase_deliverAll, Fiber.bind_done]
    rfl
  | finish events =>
    simp only [erase_bind, erase_tell, erase_finish, Fiber.bind_done]
    rfl

theorem erase_drainAll (ids : List LaneId) : (drainAll wiring ids).erase = Bus.drainAll wiring ids := by
  induction ids with
  | nil => rfl
  | cons id rest ih =>
    simp only [drainAll, bind_eq, erase_bind, erase_ofFiber, erase_tell, erase_finish, ih, Fiber.bind_done]
    rfl

end Erase

end Recorded

/-- What is told of an event: to which handlers it is dispatched, and the trace of that. -/
def EventTrace (wiring : Wiring H X) (event : Event) (ns : List (Entry H)) : Prop :=
  ∃ handlers marks, ns = .begun event handlers :: marks.map .mark ∧
    Traced event (places (handlers.map wiring.handler) event) marks

/-- What is told of the events that are taken out of a lane at a time: the trace of each after that of the one
before. -/
def LaneTrace (wiring : Wiring H X) (id : LaneId) (ns : List (Entry H)) : Prop :=
  ∃ events traces, List.Forall₂ (EventTrace wiring) events traces ∧ ns = .took id events :: traces.flatten

section Tells

variable {wiring : Wiring H X} {ns : List (Entry H)}

theorem tells_deliver {topic : String} {ctx : Context} {event : Event} {u : Unit}
    (h : (Recorded.deliver wiring topic ctx event).Tells ns u) : EventTrace wiring event ns := by
  obtain ⟨handlers, _, _, hread, h₁, rfl⟩ := tells_bind h
  obtain ⟨_, _, _, htell, h₂, rfl⟩ := tells_bind h₁
  obtain ⟨marks, rfl, ht⟩ := tells_dispatch h₂
  rw [tells_ofFiber hread, tells_tell htell]
  exact ⟨handlers, marks, rfl, ht⟩

theorem tells_deliverAll {topic : String} {ctx : Context} {events : List Event} {u : Unit}
    (h : (Recorded.deliverAll wiring topic ctx events).Tells ns u) :
    ∃ traces, List.Forall₂ (EventTrace wiring) events traces ∧ ns = traces.flatten := by
  induction events generalizing ns with
  | nil =>
    obtain ⟨rfl, -⟩ := tells_pure h
    exact ⟨[], .nil, rfl⟩
  | cons event rest ih =>
    obtain ⟨_, first, _, hfirst, h₁, rfl⟩ := tells_bind h
    obtain ⟨traces, hrest, rfl⟩ := ih h₁
    exact ⟨first :: traces, .cons (tells_deliver hfirst) hrest, rfl⟩

theorem tells_finish {id : LaneId} {events : List Event} {u : Unit}
    (h : (Recorded.finish wiring id events).Tells ns u) :
    ∃ traces, List.Forall₂ (EventTrace wiring) events traces ∧ ns = traces.flatten := by
  obtain ⟨_, _, _, hall, h₁, rfl⟩ := tells_bind h
  obtain ⟨traces, ht, rfl⟩ := tells_deliverAll hall
  exact ⟨traces, ht, by rw [tells_ofFiber h₁, List.append_nil]⟩

theorem tells_turn {worker : Worker} {more : Bool} (h : (Recorded.turn wiring worker).Tells ns more) :
    LaneTrace wiring worker.lane ns := by
  obtain ⟨next, _, _, hnext, h₁, rfl⟩ := tells_bind h
  rw [tells_ofFiber hnext, List.nil_append]
  cases next with
  | goOn events =>
    obtain ⟨_, _, _, htook, h₂, rfl⟩ := tells_bind h₁
    obtain ⟨_, _, _, hall, h₃, rfl⟩ := tells_bind h₂
    obtain ⟨rfl, -⟩ := tells_pure h₃
    obtain ⟨traces, ht, rfl⟩ := tells_deliverAll hall
    rw [tells_tell htook, List.append_nil]
    exact ⟨events, traces, ht, rfl⟩
  | finish events =>
    obtain ⟨_, _, _, htook, h₂, rfl⟩ := tells_bind h₁
    obtain ⟨_, _, _, hall, h₃, rfl⟩ := tells_bind h₂
    obtain ⟨rfl, -⟩ := tells_pure h₃
    obtain ⟨traces, ht, rfl⟩ := tells_finish hall
    rw [tells_tell htook, List.append_nil]
    exact ⟨events, traces, ht, rfl⟩

theorem tells_drainAll {ids : List LaneId} {u : Unit} (h : (Recorded.drainAll wiring ids).Tells ns u) :
    ∃ traces, List.Forall₂ (LaneTrace wiring) ids traces ∧ ns = traces.flatten := by
  induction ids generalizing ns with
  | nil =>
    obtain ⟨rfl, -⟩ := tells_pure h
    exact ⟨[], .nil, rfl⟩
  | cons id rest ih =>
    obtain ⟨events, _, _, hdrain, h₁, rfl⟩ := tells_bind h
    obtain ⟨_, _, _, htook, h₂, rfl⟩ := tells_bind h₁
    obtain ⟨_, _, _, hall, h₃, rfl⟩ := tells_bind h₂
    obtain ⟨each, ht, rfl⟩ := tells_finish hall
    obtain ⟨traces, hrest, rfl⟩ := ih h₃
    rw [tells_ofFiber hdrain, tells_tell htook]
    exact ⟨(.took id events :: each.flatten) :: traces, .cons ⟨events, each, ht, rfl⟩ hrest, by simp⟩

end Tells

/-- One job serves lanes. Between any two of its acts anything may happen on the bus or beside it. -/
def besides {κ : Type} (again : κ → Option (Recorded H X κ)) :
    Rules (World H X) (Entry H) κ (World H X → World H X) where
  call _ := none
  again := again
  watch _ _ := []
  outside f w := f w

/-- A worker comes back for its next turn until it has had its last one. -/
def comeBack (wiring : Wiring H X) (worker : Worker) (more : Bool) : Option (Recorded H X Bool) :=
  if more then some (Recorded.turn wiring worker) else none

section Lanes

variable (wiring : Wiring H X) (w : World H X)

/-- The worker of a lane, after some steps. -/
def tended (worker : Worker) (moves : List (Move (World H X → World H X))) : Crowd (World H X) (Entry H) Bool :=
  (Crowd.gather w [Recorded.turn wiring worker]).run (besides (comeBack wiring worker)) moves

/-- Whoever drains lanes one after the other, after some steps. -/
def drained (ids : List LaneId) (moves : List (Move (World H X → World H X))) : Crowd (World H X) (Entry H) Unit :=
  (Crowd.gather w [Recorded.drainAll wiring ids]).run (besides fun _ => none) moves

/-- What a worker has told: the traces of whole turns, and the beginning of the next one or, if that was its last one,
all of it. -/
theorem tales_tended (worker : Worker) (moves : List (Move (World H X → World H X))) :
    ∃ (turns : List (List (Entry H))) (current more : List (Entry H)),
      own 0 (tended wiring w worker moves).history = turns.flatten ++ current ∧
      (∀ ns ∈ turns, LaneTrace wiring worker.lane ns) ∧ LaneTrace wiring worker.lane (current ++ more) ∧
      ∀ a, (tended wiring w worker moves).jobs[0]? = some (.done a) → more = [] := by
  have hagain : ∀ ns more t, LaneTrace wiring worker.lane ns → comeBack wiring worker more = some t →
      ∀ ms more', t.Tells ms more' → LaneTrace wiring worker.lane ms := by
    intro ns more t _ ht ms more' hms
    simp only [comeBack, Option.ite_none_right_eq_some, Option.some.injEq] at ht
    obtain ⟨-, rfl⟩ := ht
    exact tells_turn hms
  have htelling : (tended wiring w worker moves).Telling (besides (comeBack wiring worker))
      (fun ns _ => LaneTrace wiring worker.lane ns) 0 :=
    (Crowd.telling_gather w fun _ _ => tells_turn).run (fun _ _ => rfl) hagain moves
  obtain ⟨turns, current, more, hown, hturns, ⟨-, hcurrent⟩, hdone⟩ := htelling.tales
  refine ⟨turns, current, more, hown, fun ns hns => ?_, hcurrent, hdone⟩
  obtain ⟨-, hns, -⟩ := hturns ns hns
  exact hns

theorem tales_drained (ids : List LaneId) (moves : List (Move (World H X → World H X))) :
    ∃ (more : List (Entry H)) (traces : List (List (Entry H))),
      own 0 (drained wiring w ids moves).history ++ more = traces.flatten ∧
      List.Forall₂ (LaneTrace wiring) ids traces ∧
      ∀ u, (drained wiring w ids moves).jobs[0]? = some (.done u) → more = [] := by
  have htelling : (drained wiring w ids moves).Telling (besides fun _ => none)
      (fun ns _ => ∃ traces, List.Forall₂ (LaneTrace wiring) ids traces ∧ ns = traces.flatten) 0 :=
    (Crowd.telling_gather w fun _ _ => tells_drainAll).run (fun _ _ => rfl) (fun _ _ _ _ ht => by cases ht) moves
  obtain ⟨rounds, ns, more, hown, hrounds, ⟨-, traces, htraces, hns⟩, hdone⟩ := htelling.tales
  have hnone : rounds = [] := by
    apply List.eq_nil_iff_forall_not_mem.mpr
    intro r hr
    obtain ⟨u, -, hagain⟩ := hrounds r hr
    cases hagain
  rw [hnone, List.flatten_nil, List.nil_append] at hown
  exact ⟨more, traces, by rw [hown, hns], htraces, hdone⟩

/-- Whatever the handlers do and whatever happens besides, a dispatch calls the handlers that take the event in order
up to the first that fails, and then those in reverse; and a lane is told event by event. -/
theorem dispatch_traces {σ : Type} :
    (∀ (handlers : List (Handler (Fiber σ))) observe ctx event, Chronicle handlers observe ctx event) ∧
    (∀ topic ctx event ns, (Recorded.deliver wiring topic ctx event).Tells ns () → EventTrace wiring event ns) ∧
    (∀ topic ctx events ns, (Recorded.deliverAll wiring topic ctx events).Tells ns () →
      ∃ traces, List.Forall₂ (EventTrace wiring) events traces ∧ ns = traces.flatten) ∧
    (∀ worker, (Recorded.turn wiring worker).erase = turn wiring worker ∧
      ∀ moves, ∃ (turns : List (List (Entry H))) (current more : List (Entry H)),
        own 0 (tended wiring w worker moves).history = turns.flatten ++ current ∧
        (∀ ns ∈ turns, LaneTrace wiring worker.lane ns) ∧ LaneTrace wiring worker.lane (current ++ more) ∧
        ∀ a, (tended wiring w worker moves).jobs[0]? = some (.done a) → more = []) ∧
    ∀ ids, (Recorded.drainAll wiring ids).erase = drainAll wiring ids ∧
      ∀ moves, ∃ (more : List (Entry H)) (traces : List (List (Entry H))),
        own 0 (drained wiring w ids moves).history ++ more = traces.flatten ∧
        List.Forall₂ (LaneTrace wiring) ids traces ∧
        ∀ u, (drained wiring w ids moves).jobs[0]? = some (.done u) → more = [] :=
  ⟨chronicle, fun _ _ _ _ => tells_deliver, fun _ _ _ _ => tells_deliverAll,
    fun worker => ⟨Recorded.erase_turn wiring worker, tales_tended wiring w worker⟩,
    fun ids => ⟨Recorded.erase_drainAll wiring ids, tales_drained wiring w ids⟩⟩

end Lanes

namespace Quartet

def failing : Fiber (World Nat Unit) (Except Failure Unit) :=
  return .error (.text "no")

/-- The third of four fails and the second is not for these events. The first cannot be undone. -/
def wiring : Wiring Nat Unit where
  handler place :=
    { accepts := fun e => place != 1 || e.name == "shipped"
      handle := fun _ _ => if place = 2 then failing else return .ok ()
      rollback := fun _ _ => if place = 0 then failing else return .ok () }
  observe _ := return ()

/-- An event waits in the only lane. -/
def bus : Bus Nat :=
  ⟨⟨1, 4⟩, 7, [("order", ⟨[0, 1, 2, 3], #[Lane.empty.push (Event.mk ⟨.ofNat 1⟩ "placed" ⟨.ofNat 2⟩ "order" none 1
    ⟨2024, 1, 1, 0, 0, 0, 0⟩ .null)]⟩)], true, true, false, false, 0⟩

def final : Crowd (World Nat Unit) (Entry Nat) Bool :=
  tended wiring (World.create bus 0 ()) ⟨⟨"order", 0⟩, .background⟩ (List.replicate 12 (.job 0))

/-- Who is called and what is observed. -/
def call? : Entry Nat → Option (Nat × String)
  | .mark (.handle place _) => some (place, "handle")
  | .mark (.rollback place _) => some (place, "rollback")
  | .mark (.observe e) => some (e.index, if e.isRollback then "rollback failed" else "failed")
  | _ => none

theorem calls_final : (own 0 final.history).filterMap call? =
    [(0, "handle"), (2, "handle"), (2, "failed"), (2, "rollback"), (0, "rollback"), (0, "rollback failed")] := by
  decide +kernel

end Quartet

/-- Each call is on a handler that takes the event, and stands in the trace of a turn. -/
theorem quartet_traced :
    (own 0 Quartet.final.history).filterMap Quartet.call? =
        [(0, "handle"), (2, "handle"), (2, "failed"), (2, "rollback"), (0, "rollback"), (0, "rollback failed")] ∧
      ∃ (turns : List (List (Entry Nat))) (current more : List (Entry Nat)),
        own 0 Quartet.final.history = turns.flatten ++ current ∧
        (∀ ns ∈ turns, LaneTrace Quartet.wiring ⟨"order", 0⟩ ns) ∧
        LaneTrace Quartet.wiring ⟨"order", 0⟩ (current ++ more) := by
  refine ⟨Quartet.calls_final, ?_⟩
  obtain ⟨turns, current, more, hown, hturns, hcurrent, -⟩ :=
    ((dispatch_traces (σ := Unit) Quartet.wiring (World.create Quartet.bus 0 ())).2.2.2.1
      ⟨⟨"order", 0⟩, .background⟩).2 (List.replicate 12 (.job 0))
  exact ⟨turns, current, more, hown, hturns, hcurrent⟩

end EventJournal.Bus
