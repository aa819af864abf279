import EventJournal.Engine
import EventJournal.Handler

/-!
Handlers that feed an engine. There is nothing to undo: what the engine stored stays stored.
-/
namespace EventJournal.EventIntake

variable {m : Type → Type} [Monad m]

/-- Feeds the events of the given names, or all if none are given. -/
def handler (intake : EventIntake m) (names : List String) : Handler m where
  accepts event := NamedHandler.admits names event
  handle ctx event := do return (← intake ctx event).mapError .engine
  rollback _ _ := return .ok ()

end EventJournal.EventIntake
