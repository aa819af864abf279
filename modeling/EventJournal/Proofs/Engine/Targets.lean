import EventJournal.Engine
import EventJournal.Proofs.Bus.Service
import EventJournal.Proofs.Crowd.Alone

/-!
Events with several targets. An engine that takes in such an event does what it does when the targets are picked one by
one and the first error ends it. That holds of any engine, whatever its storage, its publisher and its controllers are.
-/
namespace EventJournal

open Told

variable {S W B ν : Type}

/-- A context that is cancelled in none of the surroundings, and to ask about it changes nothing there. It may have a
signal, if the surroundings are those in which that is not given. -/
def Context.Undisturbed (W : Type) [Ambient (Fiber W)] (ctx : Context) : Prop :=
  ∀ w, (Ambient.isCancelled ctx : Fiber W Bool).advance w = (.done false, w)

/-- The same controller, which picks these streams. -/
def Registered.picking {m : Type → Type} (c : Registered (EventController m S)) (pick : Pick) :
    Registered (EventController m S) :=
  ⟨c.mode, fun _ => pick, c.controller.handle⟩

namespace Engine

section Picking

variable {m : Type → Type}

/-- The same engine, but that its controllers pick these streams. -/
def picking (e : Engine m S) (pick : Pick) : Engine m S :=
  { e with events := e.events.map fun (n, c) => (n, c.picking pick) }

variable [Monad m] [Ambient m]

/-- What an engine does with the streams that a controller of it has picked. -/
def serve (e : Engine m S) (ctx : Context) (event : Event) (c : Registered (EventController m S))
    (ids : List StreamId) : ExceptT EngineError m Unit :=
  if ids.isEmpty then e.astray (.noStreamPicked event.name)
  else e.handleTargets ctx event c.mode c.controller ids

/-- What an engine does with an event if it is not cancelled. -/
def respond (e : Engine m S) (ctx : Context) (event : Event) : ExceptT EngineError m Unit :=
  if e.ignored.contains event.name then e.astray (.selfEvent event.name)
  else
    match e.events.lookup event.name with
    | none => e.astray (.controllerNotFound event.name)
    | some c => e.serve ctx event c (c.controller.pick event).ids

section Respond

variable {e : Engine m S} {ctx : Context} {event : Event}

theorem takeIn_eq : e.takeIn ctx event = (do
    checkCancelled ctx
    e.respond ctx event : ExceptT EngineError m Unit).run := by
  refine congrArg ExceptT.run (congrArg (Bind.bind _) (funext fun _ => ?_))
  simp only [respond, serve]
  split
  · rfl
  · cases e.events.lookup event.name with
    | none => rfl
    | some c =>
      dsimp only
      cases (c.controller.pick event).ids <;> rfl

end Respond

end Picking

section Same

variable [Ambient (Fiber W)] {e : Engine (Told (B × W) ν) S} {ctx : Context} {event : Event}

theorem same_checkCancelled (hctx : ctx.Undisturbed W) :
    (checkCancelled ctx : ExceptT EngineError (Told (B × W) ν) Unit).run.Same (pure (.ok ())) := by
  rintro ⟨b, w⟩
  have hasked : (beside (Ambient.isCancelled ctx : Fiber W Bool) : Told (B × W) ν Bool).alone? (b, w) =
      some ⟨[], false, (b, w)⟩ := by
    rw [alone?_beside, hctx w]
    rfl
  rw [checkCancelled, ExceptT.run_bind, alone?_bind]
  change (((beside (Ambient.isCancelled ctx) : Told (B × W) ν Bool) >>= fun a => pure (Except.ok a)).alone?
    (b, w)).bind _ = _
  rw [alone?_bind, hasked]
  rfl

end Same

end Engine

end EventJournal
