import EventJournal.Handler

/-!
Handlers that run once per event: an event that was handled is not handled again until it is undone.
-/
namespace EventJournal

/-- Remembers which events were handled. -/
structure Memory (m : Type → Type) where
  knows : Context → Event → m (Except Failure Bool)
  keep : Context → Event → m (Except Failure Unit)
  forget : Context → Event → m (Except Failure Unit)

/-- The ids of the events that were handled. -/
abbrev Seen := List EventId

namespace Seen

def add (v : Seen) (event : Event) : Seen :=
  if v.contains event.id then v else event.id :: v

def forget (v : Seen) (event : Event) : Seen :=
  v.filter (· != event.id)

theorem contains_add (v : Seen) (event : Event) : (v.add event).contains event.id = true := by
  unfold add
  split <;> simp_all

theorem not_contains_forget (v : Seen) (event : Event) :
    (v.forget event).contains event.id = false := by
  simp [forget]

end Seen

namespace Memory

variable {m : Type → Type}

/-- The memory kept in a cell. -/
def inCell (cell : Cell m Seen) : Memory m where
  knows _ event := cell.read fun v => .ok (v.contains event.id)
  keep _ event := cell.act fun v => (.ok (), v.add event)
  forget _ event := cell.act fun v => (.ok (), v.forget event)

end Memory

namespace Handler

variable {m : Type → Type} [Monad m]

/-- Skips what was handled before. Undoing forgets the event first, so that it can be handled again. -/
def once (inner : Handler m) (memory : Memory m) : Handler m where
  accepts := inner.accepts
  handle ctx event := ExceptT.run do
    if ← ExceptT.mk (memory.knows ctx event) then return ()
    ExceptT.mk (inner.handle ctx event)
    ExceptT.mk (memory.keep ctx event)
  rollback ctx event := ExceptT.run do
    ExceptT.mk (memory.forget ctx event)
    ExceptT.mk (inner.rollback ctx event)

end Handler

end EventJournal
