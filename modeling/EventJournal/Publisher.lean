import EventJournal.Ambient

/-!
Publishers pass events on. The events of one stream are published in the order of their versions.
-/
namespace EventJournal

inductive PublishError where
  | topicNotFound (streamName : String)
  | closed
  | cancelled
  | transport (reason : String)
  deriving DecidableEq, Repr

def PublishError.message : PublishError → String
  | .topicNotFound s => "no topic registered for stream " ++ s
  | .closed => "publisher is closed"
  | .cancelled => "publication cancelled"
  | .transport r => r

/-- Publishes a batch. After a failure a first part of it may have been accepted. -/
abbrev Publisher (m : Type → Type) :=
  Context → List Event → m (Except PublishError Unit)

end EventJournal
