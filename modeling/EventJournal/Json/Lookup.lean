import EventJournal.Json

/-!
Looking into JSON values. What is absent and what is null look the same, and what has another kind
counts as absent.
-/
namespace EventJournal.Json

def field (j : Json) (name : String) : Json :=
  (j.get? name).getD .null

/-- The value of a field, unless it is null. -/
def given? (j : Json) (name : String) : Option Json :=
  match j.field name with
  | .null => none
  | v => some v

def nat? : Json → Option Nat
  | .int z => if 0 ≤ z then some z.toNat else none
  | _ => none

def items : Json → List Json
  | .list js => js
  | _ => []

def members : Json → List (String × Json)
  | .object fields => fields
  | _ => []

def textOf? (j : Json) (name : String) : Option String :=
  (j.field name).str?

def textOf (j : Json) (name : String) : String :=
  (j.textOf? name).getD ""

def natOf? (j : Json) (name : String) : Option Nat :=
  (j.field name).nat?

def natOf (j : Json) (name : String) : Nat :=
  (j.natOf? name).getD 0

def flagOf (j : Json) (name : String) : Bool :=
  match j.field name with
  | .bool b => b
  | _ => false

def listOf (j : Json) (name : String) : List Json :=
  (j.field name).items

def textsOf (j : Json) (name : String) : List String :=
  (j.listOf name).filterMap str?

/-- Adds a field at the end of an object. -/
def withField (j : Json) (name : String) (value : Json) : Json :=
  .object (j.members ++ [(name, value)])

end EventJournal.Json
