import EventJournal.Handler

/-!
Projections build a view of the events. Each event name has an entry of its own; a strict projection
fails on an event that has none.
-/
namespace EventJournal

/-- How an event of one name is handled and undone. -/
structure ProjectionEntry (m : Type → Type) where
  handle : Event → m (Except Failure Unit)
  rollback : Option (Event → m (Except Failure Unit))

structure Projection (m : Type → Type) where
  entries : List (String × ProjectionEntry m)
  strict : Bool

namespace Projection

variable {m : Type → Type}

def empty : Projection m :=
  ⟨[], true⟩

/-- Events without an entry are passed over. -/
def skipUnhandled (p : Projection m) : Projection m :=
  { p with strict := false }

/-- Puts an entry in the place of the one that the name had. -/
def setEntry (name : String) (entry : ProjectionEntry m) :
    List (String × ProjectionEntry m) → List (String × ProjectionEntry m)
  | [] => [(name, entry)]
  | (n, e) :: rest => if n = name then (name, entry) :: rest else (n, e) :: setEntry name entry rest

def on (p : Projection m) (name : String) (handle : Event → m (Except Failure Unit)) :
    Projection m :=
  { p with entries := setEntry name ⟨handle, none⟩ p.entries }

def onWithRollback (p : Projection m) (name : String)
    (handle rollback : Event → m (Except Failure Unit)) : Projection m :=
  { p with entries := setEntry name ⟨handle, some rollback⟩ p.entries }

def entry? (p : Projection m) (event : Event) : Option (ProjectionEntry m) :=
  p.entries.lookup event.name

def missing (action : String) (event : Event) : Failure :=
  .text ("no projection " ++ action ++ " for event " ++ event.name)

/-- What is done with an event that has no entry. -/
def unhandled [Monad m] (p : Projection m) (action : String) (event : Event) :
    m (Except Failure Unit) :=
  if p.strict then return .error (missing action event) else return .ok ()

def handler [Monad m] (p : Projection m) : Handler m where
  accepts event := (p.entry? event).isSome
  handle _ event :=
    match p.entry? event with
    | some e => e.handle event
    | none => p.unhandled "handler" event
  rollback _ event :=
    match p.entry? event with
    | some ⟨_, some undo⟩ => undo event
    | some ⟨_, none⟩ => return .ok ()
    | none => p.unhandled "rollback" event

def text (p : Projection m) : String :=
  "Projection \x7b events: [" ++ quotedNames (p.entries.map Prod.fst) ++ "], strict: " ++
    (if p.strict then "true" else "false") ++ " \x7d"

end Projection

end EventJournal
