import EventJournal.Rehearsal.Handlers

/-!
Test doubles for controllers. A script is a list of steps that a controller takes on its stream, such as to append an
event, to refuse, or to cancel the context.
-/
namespace EventJournal.Rehearsal

inductive Step where
  | emit (name : String) (payload : Json)
  /-- With the payload of the message. -/
  | emitInput (name : String)
  /-- With a payload that cannot be encoded. -/
  | emitBad (name : String)
  | reject (error : DomainError)
  | decode (shape : Shape)
  /-- Refuses once the total has come that far. -/
  | limit (total : Int)
  | reply (version : Nat)
  /-- Replies with the version that the stream has by now. -/
  | replyVersion
  | replyError (reason : String)
  /-- Cancels the main context. -/
  | cancel
  /-- Lets somebody else change the stored stream first. -/
  | rival (name : String) (payload : Json)

/-- A reply before it is tied to a command. -/
inductive Answer where
  | version (n : Nat)
  | refused (reason : String)

def Answer.reply (command : Command) (now : Timestamp) : Answer → Reply
  | .version n => command.replyOk now n
  | .refused reason => command.replyError now reason

abbrev Scripted := Revision Play Tally

/-- Changes the stored stream past the engine; a stream that cannot be loaded is left alone. -/
def playRival (engine : String) (id : StreamId) (name : String) (payload : Json) : Play Unit := do
  let stamp ← Ambient.stamp
  let takenAt ← Ambient.now
  (storeOf engine).modify fun store =>
    match store.load id none with
    | .error _ => store
    | .ok stream =>
      match Stream.append ⟨stamp, takenAt⟩ name (.ok payload) stream with
      | .error _ _ => store
      | .ok _ stream =>
        match store.persist stream with
        | .ok store => store
        | .error _ => store

/-- Takes one step; a reply may be set by it. -/
def Step.run (engine name : String) (payload : Json) : Step → Scripted (Option Answer)
  | .emit event p => do
    let _ ← Revision.emit event (.ok p)
    return none
  | .emitInput event => do
    let _ ← Revision.emit event (.ok payload)
    return none
  | .emitBad event => do
    let _ ← Revision.emit event (.error .keyNotText)
    return none
  | .reject error => throw error
  | .decode shape => do
    let _ ← Revision.ofPayload (reread shape name payload)
    return none
  | .limit total => do
    if total ≤ (← get).state.total then throw (.invariant "limit reached")
    return none
  | .reply version => return some (.version version)
  | .replyVersion => return some (.version (← get).version)
  | .replyError reason => return some (.refused reason)
  | .cancel => do
    Revision.lift cancelMain
    return none
  | .rival event p => do
    Revision.lift (playRival engine (← get).id event p)
    return none

/-- Takes the steps in order; the last reply stands. -/
def runScript (engine name : String) (payload : Json) (answer : Option Answer) :
    List Step → Scripted (Option Answer)
  | [] => return answer
  | step :: rest => do
    let next ← step.run engine name payload
    runScript engine name payload (next <|> answer) rest

/-- How the streams for an event are picked. -/
inductive Picking where
  | fixed (pick : Pick)
  /-- The id in a field of the payload. -/
  | field (name : String)
  /-- The payload as a list of ids. -/
  | listed
  /-- The stream of the event. -/
  | source

def Picking.pick (event : Event) : Picking → Pick
  | .fixed p => p
  | .field name =>
    match (event.payload.get? name).map (Coded.ofJson StreamId) with
    | some (.ok id) => .one id
    | _ => .none
  | .listed =>
    match event.decode (List StreamId) with
    | .ok ids => .many ids
    | .error _ => .many []
  | .source => .one event.streamId

/-- A controller to be made. -/
inductive Part where
  | command (name : String) (mode : Mode) (script : List Step)
  | event (name : String) (mode : Mode) (picking : Picking) (script : List Step)

def Part.register (engine : String) (b : Engine.Builder Play Tally) : Part → Engine.Builder Play Tally
  | .command name mode script =>
    b.registerCommand mode name fun _ command => do
      let answer ← runScript engine command.name command.payload none script
      let now ← Revision.lift Ambient.now
      return answer.map (Answer.reply command now)
  | .event name mode picking script =>
    b.registerEvent mode name {
      pick := fun event => picking.pick event
      handle := fun _ event => do
        let _ ← runScript engine event.name event.payload none script }

end EventJournal.Rehearsal
