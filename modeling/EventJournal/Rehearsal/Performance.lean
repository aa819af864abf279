import EventJournal.Bus.Serve
import EventJournal.Report
import EventJournal.Rehearsal.Company

/-!
Running calls on test doubles step by step. A call is answered when its fiber ends, which may be in a later step; a step
tells what was noted in it, lane by lane.
-/
namespace EventJournal.Rehearsal

abbrev Show := Pool Scene

namespace Show

def act (f : Scene → α × Scene) (p : Show) : α × Show :=
  let (a, state) := f p.state
  (a, { p with state })

/-- Runs until every fiber waits. -/
def settled (wiring : Wiring Plan Stage) (p : Show) : Show :=
  p.settle (Bus.calls wiring) (Nat.pow 2 32)

/-- A call whose answer is kept under a number. -/
def answered (number : Nat) (work : Play Json) : Job Scene := .once do
  let answer ← work
  change fun s => { s with answers := s.answers ++ [(number, answer)] }

/-- Starts a call, and runs until every fiber waits. -/
def call (wiring : Wiring Plan Stage) (p : Show) (number : Nat) (work : Play Json) : Show :=
  settled wiring (p.start (answered number work))

/-- Makes a call that gives way to all fibers that run already. -/
def callLast (wiring : Wiring Plan Stage) (p : Show) (number : Nat) (work : Play Json) : Show :=
  settled wiring (p.start { answered number work with patient := true })

def answer? (p : Show) (number : Nat) : Option Json :=
  p.state.rest.answers.lookup number

/-- What a call that has no answer yet is told to be. -/
def pending : Json :=
  .text "pending"

/-- The different members of a list, in order of appearance. -/
def distinct [BEq α] (xs : List α) : List α :=
  xs.foldl (fun ys x => if ys.contains x then ys else ys ++ [x]) []

/-- The notes since the last step, lane by lane. -/
def takeNotes (p : Show) : Json × Show :=
  p.act fun w =>
    let notes := w.rest.notes
    let lanes := (distinct (notes.map Prod.fst)).mergeSort fun a b => a < b || a == b
    let ofLane (lane : String) : Json :=
      .object [("lane", .text lane),
        ("log", .list ((notes.filter (·.1 == lane)).map fun (_, e) => .text e))]
    (.list (lanes.map ofLane), w.withRest fun s => { s with notes := [] })

/-- The log kept by feeds and handlers, with every warning and error of others. -/
def shown (records : List Record) : Json :=
  .list <| (records.filter fun r =>
    r.target == Watched.target || r.level == .warn || r.level == .error).map Report.record

def takeTrace (p : Show) : Json × Show :=
  p.act fun w => (shown w.records, { w with records := [] })

/-- Ends a step: adds what was noted in it, and the log if it is wanted. -/
def endStep (p : Show) (trace : Bool) (answer : List (String × Json)) : Json × Show :=
  let (notes, p) := p.takeNotes
  let (log, p) := p.takeTrace
  (.object (answer ++ [("log", notes)] ++ (if trace then [("trace", log)] else [])), p)

end Show

end EventJournal.Rehearsal
