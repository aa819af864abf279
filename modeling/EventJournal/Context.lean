import EventJournal.Json

/-!
The context of a call: the signal that may cancel it, and the span under which its records are made.
-/
namespace EventJournal

inductive Level where
  | debug
  | info
  | warn
  | error
  deriving DecidableEq, Repr

def Level.name : Level → String
  | .debug => "DEBUG"
  | .info => "INFO"
  | .warn => "WARN"
  | .error => "ERROR"

/-- A named stretch of work with what is known about it. -/
structure Span where
  name : String
  fields : List (String × Json)
  deriving Repr

/-- One line of the log. -/
structure Record where
  level : Level
  target : String
  message : String
  fields : List (String × Json)
  span : Option Span
  deriving Repr

/-- A context without a signal is never cancelled. -/
structure Context where
  signal : Option Nat
  span : Option Span
  deriving Repr

/-- The signals that have been given, and how many have been made. -/
structure Signals where
  made : Nat
  fired : List Nat
  deriving Repr

namespace Signals

def none : Signals :=
  ⟨0, []⟩

/-- A new signal. -/
def make (s : Signals) : Nat × Signals :=
  (s.made, { s with made := s.made + 1 })

def fire (s : Signals) (signal : Nat) : Signals :=
  { s with fired := signal :: s.fired }

end Signals

namespace Context

def background : Context :=
  ⟨none, none⟩

def ofSignal (signal : Nat) : Context :=
  ⟨some signal, none⟩

/-- The same context inside a span. -/
def within (c : Context) (span : Span) : Context :=
  { c with span := some span }

def isCancelled (c : Context) (signals : Signals) : Bool :=
  match c.signal with
  | some k => signals.fired.contains k
  | none => false

@[simp] theorem not_isCancelled_background (s : Signals) : background.isCancelled s = false := rfl

@[simp] theorem isCancelled_within (c : Context) (span : Span) (s : Signals) :
    (c.within span).isCancelled s = c.isCancelled s := rfl

end Context

end EventJournal
