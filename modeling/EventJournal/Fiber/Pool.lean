import EventJournal.Fiber

/-!
A pool of jobs on one shared state. The jobs that can move stand in a queue; the first of them runs
until it has to wait or ends. A job that waits joins the end of the queue as soon as an act of another
lets it go on. A job may call for new jobs by leaving word in the state.
-/
namespace EventJournal

/-- A fiber that starts over as long as it answers true. -/
structure Job (σ : Type) where
  again : Fiber σ Bool
  current : Fiber σ Bool
  /-- Moves on only when no other job can. -/
  patient : Bool

namespace Job

variable {σ : Type}

def once (t : Fiber σ Unit) : Job σ :=
  let current := t.bind fun _ => .done false
  ⟨current, current, false⟩

def loop (t : Fiber σ Bool) : Job σ :=
  ⟨t, t, false⟩

end Job

structure Pool (σ : Type) where
  state : σ
  /-- The job whose turn it is. -/
  running : Option (Job σ)
  /-- The jobs that can move, in the order in which their turns come. -/
  ready : List (Job σ)
  waiting : List (Job σ)

namespace Pool

variable {σ : Type}

/-- A pool without jobs. -/
def idle (state : σ) : Pool σ :=
  ⟨state, none, [], []⟩

/-- Adds a job behind the others. -/
def start (p : Pool σ) (j : Job σ) : Pool σ :=
  { p with ready := p.ready ++ [j] }

/-- The jobs that the state calls for, and the state without the calls. -/
abbrev Calls (σ : Type) := σ → List (Job σ) × σ

/-- Queues the waiting jobs that can go on by now. -/
def rouse (p : Pool σ) : Pool σ :=
  let (roused, waiting) := p.waiting.partition fun j => j.current.isReady p.state
  if roused.isEmpty then p else { p with ready := p.ready ++ roused, waiting }

/-- Gives the turn to the first job in the queue, to a patient one only if there is no other. -/
def nextTurn (p : Pool σ) : Pool σ :=
  let (patient, others) := p.ready.partition Job.patient
  match others ++ patient with
  | [] => p
  | j :: rest => { p with running := some j, ready := rest }

/-- Does one act of a job, which keeps its turn as long as it can move. -/
def advance (calls : Calls σ) (p : Pool σ) (j : Job σ) : Pool σ :=
  match j.current with
  | .done true => { p with running := some { j with current := j.again } }
  | .done false => { p with running := none }
  | .act ready effect next =>
    if ready p.state then
      let (new, state) := calls (effect p.state)
      let running := some { j with current := next p.state }
      rouse { p with state, running, ready := p.ready ++ new }
    else { p with running := none, waiting := p.waiting ++ [j] }

def step (calls : Calls σ) (p : Pool σ) : Pool σ :=
  match p.running with
  | some j => p.advance calls j
  | none => p.nextTurn

/-- Whether every job has to wait. -/
def isSettled (p : Pool σ) : Bool :=
  p.running.isNone && p.ready.isEmpty

/-- Runs until every job has to wait, in at most `fuel` steps. -/
def settle (calls : Calls σ) : (fuel : Nat) → Pool σ → Pool σ
  | 0, p => p
  | fuel + 1, p => if p.isSettled then p else settle calls fuel (p.step calls)

end Pool

end EventJournal
