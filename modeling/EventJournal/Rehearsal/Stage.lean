import EventJournal.Shop.Site
import EventJournal.Handler.Once
import EventJournal.Tally
import EventJournal.World

/-!
Test doubles. A rehearsal is a run of the programs with doubles for what the library leaves to its users: handlers and
controllers that follow a script, a storage that fails on demand, and a publisher that keeps what it is given. The stage
is the state of these doubles: their counters and notes, the faults they were told to have, and the stores.
-/
namespace EventJournal.Rehearsal

/-- Which calls of a scripted closure fail: the first few, and those for some versions and names. -/
structure Rules where
  times : Nat
  versions : List Nat
  names : List String

def Rules.fails (r : Rules) (earlier : Nat) (event : Event) : Bool :=
  earlier < r.times || r.versions.contains event.version || r.names.contains event.name

/-- A closure that notes each of its calls. Before it comes to its rules it may decode the payload. -/
structure Closure where
  key : Nat
  label : String
  verb : String
  decode : Option Shape
  rules : Rules

/-- A handler to be made. -/
inductive Plan where
  | named (names : Option (List String)) (handle : Closure) (rollback : Option Closure)
  | projection (entries : List (String × Closure × Option Closure)) (lenient : Bool)
  | once (key : Nat) (faults : List String) (inner : Plan)
  | logged (label : String) (inner : Plan)
  /-- Takes every event, and notes whether its context is cancelled. -/
  | context (label : String)
  /-- Feeds an engine. -/
  | feed (engine : String) (names : List String)
  deriving Inhabited

structure Stage where
  /-- Whether all streams of a topic share one lane. -/
  oneLane : Bool
  /-- What was noted since the last step, with the lane it was noted for. -/
  notes : List (String × String)
  /-- How often each closure came to its rules. -/
  counts : List (Nat × Nat)
  seen : List (Nat × Seen)
  stores : List (String × Store Tally)
  /-- The calls of the storage of each engine. -/
  calls : List (String × List (String × Nat))
  /-- The calls of the storage of each engine that fail, with the reason. -/
  faults : List (String × List (String × String))
  /-- How many publish calls are still to fail, and in which way. -/
  refusals : Nat × String
  publishCalls : Nat
  /-- The publish call that cancels the main context. -/
  cancelAt : Option Nat
  /-- What was published since the last step. -/
  published : List Event
  /-- The signal of the main context. -/
  main : Nat
  /-- The answers of the calls that have ended. -/
  answers : List (Nat × Json)
  carts : Store Shop.Cart
  orders : Store Shop.Order

abbrev Scene := World Plan Stage
abbrev Play := Fiber Scene

def emptyStore (name : String) (policy : VersionPolicy) : Store S :=
  ⟨name, .json .compact, policy, [], .empty⟩

def Stage.empty (oneLane : Bool) (policy : VersionPolicy) : Stage where
  oneLane
  notes := []
  counts := []
  seen := []
  stores := []
  calls := []
  faults := []
  refusals := (0, "")
  publishCalls := 0
  cancelAt := none
  published := []
  main := 0
  answers := []
  carts := emptyStore Shop.cartName policy
  orders := emptyStore Shop.orderName policy

/-- Puts a value in the place of the one under its key. -/
def setKey [BEq κ] (k : κ) (v : α) (xs : List (κ × α)) : List (κ × α) :=
  if (xs.lookup k).isSome then xs.map fun (k', v') => if k' == k then (k, v) else (k', v')
  else xs ++ [(k, v)]

def onStage (f : Stage → α × Stage) : Play α :=
  Fiber.perform fun w =>
    let (a, rest) := f w.rest
    (a, { w with rest })

def ask (f : Stage → α) : Play α :=
  onStage fun s => (f s, s)

def change (f : Stage → Stage) : Play Unit :=
  onStage fun s => ((), f s)

/-- What the lane of an event is called. -/
def laneName (oneLane : Bool) (event : Event) : String :=
  if oneLane then event.streamName else event.streamName ++ "/" ++ event.streamId.text

def note (event : Event) (text : String) : Play Unit :=
  change fun s => { s with notes := s.notes ++ [(laneName s.oneLane event, text)] }

def mainContext : Play Context :=
  ask fun s => .ofSignal s.main

def cancelMain : Play Unit :=
  Fiber.perform fun w => ((), w.fire w.rest.main)

/-- Gives the main context a signal of its own. -/
def renewMain : Play Unit :=
  Fiber.perform fun w =>
    let (signal, signals) := w.signals.make
    ((), { w with signals, rest := { w.rest with main := signal } })

def storeOf (engine : String) : Cell Play (Store Tally) :=
  World.part (fun s => (s.stores.lookup engine).getD (emptyStore engine .sequential))
    fun store s => { s with stores := setKey engine store s.stores }

def cartStore : Cell Play (Store Shop.Cart) :=
  World.part Stage.carts fun carts s => { s with carts }

def orderStore : Cell Play (Store Shop.Order) :=
  World.part Stage.orders fun orders s => { s with orders }

def seenBy (key : Nat) : Cell Play Seen :=
  World.part (fun s => (s.seen.lookup key).getD [])
    fun v s => { s with seen := setKey key v s.seen }

end EventJournal.Rehearsal
