import EventJournal.Ambient
import EventJournal.Command
import EventJournal.Stream

/-!
Controllers hold the business rules: they change a stream in answer to a command or an event.
-/
namespace EventJournal

/-- Whether the stream is loaded or made anew. -/
inductive Mode where
  | load
  | create
  deriving DecidableEq, Repr

/-- The streams that an event concerns. -/
inductive Pick where
  | none
  | one (id : StreamId)
  | many (ids : List StreamId)
  deriving DecidableEq, Repr

namespace Pick

def ids : Pick → List StreamId
  | .none => []
  | .one id => [id]
  | .many ids => ids

def ofOption : Option StreamId → Pick
  | some id => .one id
  | Option.none => .none

@[simp] theorem ids_ofOption (id : Option StreamId) : (ofOption id).ids = id.toList := by
  cases id <;> rfl

end Pick

/-- A program that works on a stream and may refuse. What it did before a refusal stays done. -/
abbrev Revision (m : Type → Type) (S : Type) :=
  ExceptT DomainError (StateT (Stream S) m)

namespace Revision

variable {m : Type → Type} {S : Type} [Monad m]

def lift (x : m α) : Revision m S α :=
  ExceptT.lift (StateT.lift x)

/-- Gives up for a reason found in a payload. -/
def ofPayload (x : Except PayloadError α) : Revision m S α :=
  ExceptT.mk (pure (x.mapError .payload))

/-- Appends an event to the stream. -/
def emit [Ambient m] [State S] (name : String) (payload : Payload) : Revision m S Event := do
  let stamp ← lift Ambient.stamp
  let takenAt ← lift Ambient.now
  ExceptT.mk fun s =>
    match Stream.append ⟨stamp, takenAt⟩ name payload s with
    | .ok event s => pure (.ok event, s)
    | .error e s => pure (.error (.payload e), s)

end Revision

/-- A reply that is not given is made up by the engine. -/
abbrev CommandController (m : Type → Type) (S : Type) :=
  Context → Command → Revision m S (Option Reply)

structure EventController (m : Type → Type) (S : Type) where
  pick : Event → Pick
  handle : Context → Event → Revision m S Unit

end EventJournal
