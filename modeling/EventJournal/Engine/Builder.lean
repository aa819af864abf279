import EventJournal.Engine

/-!
Registration of controllers. A name is bound once per kind of message; the first name that is
registered again is what the building of the engine fails with.
-/
namespace EventJournal.Engine

structure Builder (m : Type → Type) (S : Type) where
  storage : Storage m S
  publisher : Publisher m
  commands : List (String × Registered (CommandController m S))
  events : List (String × Registered (EventController m S))
  ignored : List String
  strict : Bool
  duplicate : Option String

namespace Builder

variable {m : Type → Type} {S : Type}

def create (storage : Storage m S) (publisher : Publisher m) : Builder m S :=
  ⟨storage, publisher, [], [], [], false, none⟩

/-- Takes the strictness of a configuration, and its ignored events beside those already named. -/
def withConfig (b : Builder m S) (config : EngineConfig) : Builder m S :=
  { b with strict := config.strict, ignored := b.ignored ++ config.ignoredEvents }

def withStrict (b : Builder m S) (strict : Bool) : Builder m S :=
  { b with strict }

def ignoreEvents (b : Builder m S) (names : List String) : Builder m S :=
  { b with ignored := b.ignored ++ names }

def registerCommand (b : Builder m S) (mode : Mode) (name : String)
    (controller : CommandController m S) : Builder m S :=
  if (b.commands.lookup name).isSome then { b with duplicate := b.duplicate <|> some name }
  else { b with commands := b.commands ++ [(name, ⟨mode, controller⟩)] }

def registerEvent (b : Builder m S) (mode : Mode) (name : String)
    (controller : EventController m S) : Builder m S :=
  if (b.events.lookup name).isSome then { b with duplicate := b.duplicate <|> some name }
  else { b with events := b.events ++ [(name, ⟨mode, controller⟩)] }

def command (b : Builder m S) (name : String) (controller : CommandController m S) :
    Builder m S :=
  b.registerCommand .load name controller

def commandCreate (b : Builder m S) (name : String) (controller : CommandController m S) :
    Builder m S :=
  b.registerCommand .create name controller

def event (b : Builder m S) (name : String) (controller : EventController m S) : Builder m S :=
  b.registerEvent .load name controller

def eventCreate (b : Builder m S) (name : String) (controller : EventController m S) :
    Builder m S :=
  b.registerEvent .create name controller

def build (b : Builder m S) : Except EngineError (Engine m S) :=
  match b.duplicate with
  | some name => .error (.duplicateController name)
  | none => .ok ⟨b.storage, b.publisher, b.commands, b.events, b.ignored, b.strict⟩

end Builder

end EventJournal.Engine
