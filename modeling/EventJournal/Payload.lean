import EventJournal.Shape.Coded

/-!
Payloads of messages: plain JSON values that their readers decode.
-/
namespace EventJournal

/-- Why the payload of the named message is of no use. -/
inductive PayloadError where
  | encode (name : String) (reason : Json.TableError)
  | decode (name : String) (reason : Json.Reason)
  | unexpected (name : String)
  deriving DecidableEq, Repr

def PayloadError.message : PayloadError → String
  | .encode name reason => "payload encode failed for " ++ name ++ ": " ++ reason.message
  | .decode name reason => "payload decode failed for " ++ name ++ ": " ++ reason.message
  | .unexpected name => "unexpected payload for " ++ name

/-- A payload on its way into a message: its plain form, or why there is none. -/
abbrev Payload := Except Json.TableError Json

namespace Payload

def of [Coded α] (a : α) : Payload :=
  .ok (Coded.toPlain a)

def encode (name : String) (payload : Payload) : Except PayloadError Json :=
  payload.mapError (.encode name)

def decode (α : Type) [Coded α] (name : String) (payload : Json) : Except PayloadError α :=
  (Coded.ofJson α payload).mapError (.decode name)

end Payload

/-- Why business rules refuse a command or an event. -/
inductive DomainError where
  | validation (reason : String)
  | invariant (reason : String)
  | notFound (what : String)
  | payload (error : PayloadError)
  | unauthorized
  deriving DecidableEq, Repr

def DomainError.message : DomainError → String
  | .validation r => "validation failed: " ++ r
  | .invariant r => "invariant violated: " ++ r
  | .notFound w => "not found: " ++ w
  | .payload e => e.message
  | .unauthorized => "unauthorized"

end EventJournal
