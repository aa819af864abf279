import EventJournal.Engine.Error
import EventJournal.Text.Quoted

/-!
Handlers of events. Each says which events it takes, handles them, and can undo what it did.
-/
namespace EventJournal

/-- What a handler fails with. -/
inductive Failure where
  | text (reason : String)
  | payload (error : PayloadError)
  | engine (error : EngineError)
  deriving DecidableEq, Repr

def Failure.message : Failure → String
  | .text r => r
  | .payload e => e.message
  | .engine e => e.message

structure Handler (m : Type → Type) where
  accepts : Event → Bool
  handle : Context → Event → m (Except Failure Unit)
  rollback : Context → Event → m (Except Failure Unit)

/-- A set of names, in the order in which they were given. -/
def addNames (names more : List String) : List String :=
  more.foldl (fun ns n => if ns.contains n then ns else ns ++ [n]) names

/-- The names in quotes, with commas between them. -/
def quotedNames (names : List String) : String :=
  ", ".intercalate (names.map Text.quoted)

/-- A function bound to event names; bound to none, it takes every event. -/
structure NamedHandler (m : Type → Type) where
  names : List String
  handle : Event → m (Except Failure Unit)
  rollback : Option (Event → m (Except Failure Unit))

namespace NamedHandler

variable {m : Type → Type}

def create (handle : Event → m (Except Failure Unit)) : NamedHandler m :=
  ⟨[], handle, none⟩

def on (h : NamedHandler m) (names : List String) : NamedHandler m :=
  { h with names := addNames h.names names }

def withRollback (h : NamedHandler m) (rollback : Event → m (Except Failure Unit)) :
    NamedHandler m :=
  { h with rollback := some rollback }

/-- Whether a list of names lets an event through. -/
def admits (names : List String) (event : Event) : Bool :=
  names.isEmpty || names.contains event.name

def handler [Monad m] (h : NamedHandler m) : Handler m where
  accepts event := admits h.names event
  handle _ event := h.handle event
  rollback _ event :=
    match h.rollback with
    | some undo => undo event
    | none => return .ok ()

def text (h : NamedHandler m) : String :=
  "HandlerFn \x7b names: \x7b" ++ quotedNames h.names ++ "\x7d, rollback: " ++
    (if h.rollback.isSome then "true" else "false") ++ " \x7d"

end NamedHandler

end EventJournal
