import EventJournal.Context
import EventJournal.Event

/-!
What a running program asks of its surroundings: stamps, the time, whether a context is cancelled, and
a log. Cells are the parts of a state that a program may act on, one act at a time.
-/
namespace EventJournal

class Ambient (m : Type → Type) where
  /-- Draws a fresh stamp. -/
  stamp : m Stamp
  now : m Timestamp
  isCancelled : Context → m Bool
  record : Record → m Unit

/-- Acts on a state of type `s`, each of them undivided. -/
structure Cell (m : Type → Type) (s : Type) where
  act : {α : Type} → (s → α × s) → m α

namespace Cell

variable {m : Type → Type} {s : Type}

def get (cell : Cell m s) : m s :=
  cell.act fun x => (x, x)

def read (cell : Cell m s) (f : s → α) : m α :=
  cell.act fun x => (f x, x)

def modify (cell : Cell m s) (f : s → s) : m Unit :=
  cell.act fun x => ((), f x)

/-- An act that may be refused, and then changes nothing. -/
def attempt (cell : Cell m s) (f : s → Except ε s) : m (Except ε Unit) :=
  cell.act fun x =>
    match f x with
    | .ok y => (.ok (), y)
    | .error e => (.error e, x)

end Cell

end EventJournal
