import EventJournal.Handler.Projection
import EventJournal.Rehearsal.Stage

/-!
Test doubles for handlers. What a handler does is given by a plan; each call is noted for the lane of its event.
-/
namespace EventJournal.Rehearsal

/-- A payload read as a shape, and written as plain JSON again. -/
def reread (shape : Shape) (name : String) (payload : Json) : Except PayloadError Json :=
  ((shape.ofJson payload).mapError (.decode name)).map fun v => (shape.toJson v).plain

namespace Closure

def told (c : Closure) (event : Event) : String :=
  c.label ++ " " ++ event.name ++ " v" ++ Nat.repr event.version

def refusal (c : Closure) (event : Event) : Failure :=
  .text (c.label ++ " cannot " ++ c.verb ++ " v" ++ Nat.repr event.version)

/-- Counts a call, and tells how many there were before. -/
def count (c : Closure) : Play Nat :=
  onStage fun s =>
    let n := (s.counts.lookup c.key).getD 0
    (n, { s with counts := setKey c.key (n + 1) s.counts })

def read (c : Closure) (event : Event) : ExceptT Failure Play Unit := do
  match c.decode with
  | none => return ()
  | some shape =>
    match reread shape event.name event.payload with
    | .ok v => ExceptT.lift (note event ("decoded " ++ c.label ++ " " ++ v.toText .compact))
    | .error e => throw (.payload e)

def run (c : Closure) (event : Event) : Play (Except Failure Unit) := ExceptT.run do
  ExceptT.lift (note event (c.verb ++ " " ++ c.told event))
  c.read event
  let earlier ← ExceptT.lift c.count
  if c.rules.fails earlier event then throw (c.refusal event)

end Closure

def namedHandler (names : Option (List String)) (handle : Closure) (rollback : Option Closure) :
    NamedHandler Play :=
  let h := (NamedHandler.create handle.run).on (names.getD [])
  match rollback with
  | some c => h.withRollback c.run
  | none => h

def addEntry (p : Projection Play) (entry : String × Closure × Option Closure) : Projection Play :=
  match entry with
  | (name, handle, some rollback) => p.onWithRollback name handle.run rollback.run
  | (name, handle, none) => p.on name handle.run

def projection (entries : List (String × Closure × Option Closure)) (lenient : Bool) :
    Projection Play :=
  let p := entries.foldl addEntry .empty
  if lenient then p.skipUnhandled else p

/-- A memory of which the named methods fail. -/
def faulty (faults : List String) (memory : Memory Play) : Memory Play where
  knows ctx event := guarded "has_visited" (memory.knows ctx event)
  keep ctx event := guarded "mark_visited" (memory.keep ctx event)
  forget ctx event := guarded "forget" (memory.forget ctx event)
where
  guarded {α : Type} (method : String) (call : Play (Except Failure α)) : Play (Except Failure α) :=
    if faults.contains method then return .error (.text (method ++ " failed")) else call

def contextHandler (label : String) : Handler Play where
  accepts _ := true
  handle ctx event := do
    let cancelled ← Ambient.isCancelled ctx
    note event ("ctx " ++ label ++ " v" ++ Nat.repr event.version ++ " cancelled=" ++
      (if cancelled then "true" else "false"))
    return .ok ()
  rollback _ _ := return .ok ()

/-- The engines that handlers may feed. -/
abbrev Feeds := List (String × EventIntake Play)

def Plan.handler (feeds : Feeds) : Plan → Handler Play
  | .named names handle rollback => (namedHandler names handle rollback).handler
  | .projection entries lenient => (Rehearsal.projection entries lenient).handler
  | .once key faults inner =>
    (inner.handler feeds).once (faulty faults (.inCell (seenBy key)))
  | .logged label inner => Watched.handler (inner.handler feeds) label
  | .context label => contextHandler label
  | .feed engine names =>
    EventIntake.handler ((feeds.lookup engine).getD fun _ _ => return .ok ()) names

/-- Notes the failures of handlers for the lane of the event. -/
def observer : Observer Play := fun e =>
  note e.event ("observed " ++ (if e.isRollback then "rollback" else "handle") ++ " #" ++
    Nat.repr e.index ++ ": " ++ e.message)

def wiring (feeds : Feeds) (observe : Observer Play) : Wiring Plan Stage :=
  ⟨Plan.handler feeds, observe⟩

end EventJournal.Rehearsal
