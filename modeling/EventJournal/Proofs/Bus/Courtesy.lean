import EventJournal.Bus.Publish
import EventJournal.Bus.Serve
import EventJournal.Proofs.Bus.Service
import EventJournal.Proofs.Handler.Abiding

/-!
Programs that use a bus only through its operations, as handlers do, are called courteous. Each operation is: to
publish (`Bus.courteous_publisher`) and to subscribe (`Bus.courteous_subscribeTo`), and once the lanes are served also
to listen (`Bus.courteous_listen`), which is refused then, and to close (`Bus.courteous_close`), which only asks the
workers to finish. So is to log (`Bus.courteous_note`), and whatever is put together of these by `Courteous.bind`.
-/
namespace EventJournal

variable {H X α β : Type} {config : BusConfig} {seed : UInt32}

namespace Fiber

/-- While the lanes are served, no act of the program does more to the bus than a visit. -/
def Courteous (config : BusConfig) (seed : UInt32) : Fiber (World H X) α → Prop
  | .done _ => True
  | .act ready effect next => ∀ w : World H X, w.bus.Shaped config seed → w.bus.started = true →
      ready w = true → Bus.Visit config seed w.bus (effect w).bus ∧ (effect w).hired = w.hired ∧
        (next w).Courteous config seed

theorem Courteous.bind {t : Fiber (World H X) α} {f : α → Fiber (World H X) β}
    (ht : t.Courteous config seed) (hf : ∀ a, (f a).Courteous config seed) :
    (t >>= f).Courteous config seed := by
  change (t.bind f).Courteous config seed
  induction t with
  | done a => exact hf a
  | act ready effect next ih =>
    intro w hs hst hr
    obtain ⟨hv, hh, hn⟩ := ht w hs hst hr
    exact ⟨hv, hh, ih w hn⟩

theorem courteous_pure (a : α) : (pure a : Fiber (World H X) α).Courteous config seed :=
  trivial

/-- One act that is a visit. -/
theorem courteous_await {ready : World H X → Bool} {f : World H X → α × World H X}
    (hf : ∀ w, w.bus.Shaped config seed → w.bus.started = true →
      Bus.Visit config seed w.bus (f w).2.bus ∧ (f w).2.hired = w.hired) :
    (await ready f).Courteous config seed := by
  intro w hs hst _
  exact ⟨(hf w hs hst).1, (hf w hs hst).2, trivial⟩

/-- What leaves the bus alone is courteous. -/
theorem courteous_of_eq {ready : World H X → Bool} {f : World H X → α × World H X}
    (hb : ∀ w, (f w).2.bus = w.bus) (hh : ∀ w, (f w).2.hired = w.hired) :
    (await ready f).Courteous config seed := by
  apply courteous_await
  intro w _ _
  constructor
  · rw [hb w]
    exact .none
  · exact hh w

end Fiber

open EventJournal.Fiber

structure Handler.Courteous (config : BusConfig) (seed : UInt32) (h : Handler (Fiber (World H X))) :
    Prop where
  handle : ∀ ctx event, (h.handle ctx event).Courteous config seed
  rollback : ∀ ctx event, (h.rollback ctx event).Courteous config seed

/-- Handlers, and the observer of their failures, use the bus only through its operations. A handler may call any of
them: see `Bus.courteous_publisher`, `Bus.courteous_subscribeTo`, `Bus.courteous_listen` and `Bus.courteous_close`. -/
structure Wiring.Courteous (config : BusConfig) (seed : UInt32) (wiring : Wiring H X) : Prop where
  handler : ∀ name, (wiring.handler name).Courteous config seed
  observe : ∀ e, (wiring.observe e).Courteous config seed

/-- To be courteous is to abide by that rule. -/
theorem Fiber.courteous_iff {t : Fiber (World H X) α} : t.Courteous config seed ↔
    t.Abides (fun w => w.bus.Shaped config seed ∧ w.bus.started = true)
      fun w w' => Bus.Visit config seed w.bus w'.bus ∧ w'.hired = w.hired := by
  induction t with
  | done a => exact Iff.rfl
  | act ready effect next ih =>
    refine forall_congr' fun w => ?_
    rw [ih, and_imp, and_assoc]

/-- Dispatch to courteous handlers is courteous. -/
theorem Wiring.Courteous.deliver {wiring : Wiring H X} (hw : wiring.Courteous config seed)
    (topic : String) (ctx : Context) (event : Event) :
    (Bus.deliver wiring topic ctx event).Courteous config seed := by
  refine Fiber.Courteous.bind (courteous_of_eq (fun _ => rfl) fun _ => rfl) ?_
  intro handlers
  refine courteous_iff.mpr (abides_dispatch (fun e => courteous_iff.mp (hw.observe e)) ?_)
  intro h hh
  obtain ⟨name, -, rfl⟩ := List.mem_map.mp hh
  have hname := hw.handler name
  exact ⟨courteous_iff.mp (hname.handle ctx event), courteous_iff.mp (hname.rollback ctx event)⟩

namespace Bus

theorem courteous_note (message : String) (fields : List (String × Json)) (span : Option Span) :
    (note message fields span : Fiber (World H X) Unit).Courteous config seed :=
  courteous_of_eq (fun _ => rfl) fun _ => rfl

theorem courteous_subscribeTo (topic : String) (handlers : List H) :
    (subscribeTo topic handlers : Fiber (World H X) (Except BusError Unit)).Courteous config seed := by
  apply courteous_await
  intro w _ _
  cases hs : w.bus.subscribe topic handlers with
  | ok bus => exact ⟨.subscribe topic handlers (by simpa using hs), rfl⟩
  | error e => exact ⟨.none, rfl⟩

/-- An event is sent in up to three acts: it is routed, brought to its lane, and put into it when there is
room. -/
theorem run_send (ctx : Context) (event : Event) :
    (send ctx event : ExceptT PublishError (Fiber (World H X)) Unit).run =
      (Fiber.perform fun w => (w.bus.route event, w)).bind fun
        | .error e => .done (.error e)
        | .ok id =>
          (Fiber.perform fun w => w.onBus fun bus => bus.offer id event (w.isCancelled ctx)).bind fun
            | .decided result => .done result
            | .waits ticket =>
              Fiber.await (fun w => (w.bus.claim? id ticket (w.isCancelled ctx)).isSome) fun w =>
                w.onBus fun bus => bus.claim id ticket event (w.isCancelled ctx) := by
  simp only [send, ExceptT.run_bind, ExceptT.run_mk, ExceptT.run_lift]
  refine congrArg (Fiber.bind · _) (funext fun routed => ?_)
  cases routed with
  | error e => rfl
  | ok id =>
    refine congrArg (Fiber.act _ _) (funext fun w => ?_)
    change Fiber.bind _ (Fiber.done _) = Fiber.bind _ (Fiber.done _)
    rw [Fiber.bind_done, Fiber.bind_done]
    cases (w.onBus fun bus => bus.offer id event (w.isCancelled ctx)).1 with
    | decided result => rfl
    | waits ticket => rfl

theorem courteous_send (ctx : Context) (event : Event) :
    (send ctx event : ExceptT PublishError (Fiber (World H X)) Unit).run.Courteous config seed := by
  rw [run_send]
  intro w hs _ _
  refine ⟨.none, rfl, ?_⟩
  change Fiber.Courteous config seed (Fiber.bind _ (Fiber.done _))
  rw [Fiber.bind_done]
  dsimp only
  cases hr : w.bus.route event with
  | error e => trivial
  | ok id =>
    rw [hs.route_eq hr]
    intro w _ _ _
    refine ⟨.offer event _, rfl, ?_⟩
    change Fiber.Courteous config seed (Fiber.bind _ (Fiber.done _))
    rw [Fiber.bind_done]
    cases (w.onBus fun bus => bus.offer (home config seed event) event (w.isCancelled ctx)).1 with
    | decided result => trivial
    | waits ticket => exact courteous_await fun _ _ _ => ⟨.claim ticket event _, rfl⟩

theorem courteous_publisher (ctx : Context) (events : List Event) :
    (publisher ctx events : Fiber (World H X) (Except PublishError Unit)).Courteous config seed := by
  induction events with
  | nil => exact courteous_pure _
  | cons event rest ih =>
    refine (courteous_send ctx event).bind ?_
    intro result
    cases result with
    | error e => exact courteous_pure _
    | ok u => exact ih

theorem courteous_listen (ctx : Context) :
    (listen ctx : Fiber (World H X) (Except BusError Unit)).Courteous config seed := by
  intro w hs hst _
  obtain ⟨e, he⟩ | ⟨-, ho⟩ := beginListening_cases hs
  · refine ⟨?_, ?_, ?_⟩
    · simp only [he]
      exact .none
    · simp [he, Except.toOption]
    · simp only [he]
      trivial
  · exact absurd hst (by simp [ho.unstarted])

theorem courteous_close (wiring : Wiring H X) : (close wiring).Courteous config seed := by
  intro w hs hst _
  obtain ⟨he, -⟩ | ⟨-, ho⟩ := beginClosing_cases hs
  · refine ⟨?_, rfl, ?_⟩
    · simp only [World.onBus, he]
      exact .close hst
    · simp only [World.onBus, he]
      exact courteous_of_eq (fun _ => rfl) fun _ => rfl
  · exact absurd hst (by simp [ho.unstarted])

end Bus

end EventJournal
