import EventJournal.Number.Binary64

/-!
JSON values. An object keeps its fields in the order given; a plain object has them sorted by name,
each name once.
-/
namespace EventJournal

inductive Json where
  | null
  | bool (b : Bool)
  | int (z : Int)
  | float (x : Binary64)
  | text (s : String)
  | list (items : List Json)
  | object (fields : List (String × Json))
  deriving Repr, Inhabited

namespace Json

/-- Puts a field at its place in sorted fields, over one of the same name. -/
def insertField (name : String) (value : Json) : List (String × Json) → List (String × Json)
  | [] => [(name, value)]
  | (n, v) :: rest =>
    if name < n then (name, value) :: (n, v) :: rest
    else if name = n then (name, value) :: rest
    else (n, v) :: insertField name value rest

mutual
/-- The plain form: every object sorted, a later field over an earlier one of its name. -/
def plain : Json → Json
  | .list items => .list (plainItems items)
  | .object fields => .object (plainFields fields [])
  | j => j

def plainItems : List Json → List Json
  | [] => []
  | j :: rest => plain j :: plainItems rest

def plainFields : List (String × Json) → List (String × Json) → List (String × Json)
  | [], sorted => sorted
  | (n, v) :: rest, sorted => plainFields rest (insertField n (plain v) sorted)
end

/-- The value of a field, of an object that has it. -/
def get? (j : Json) (name : String) : Option Json :=
  match j with
  | .object fields => (fields.find? fun f => f.1 == name).map Prod.snd
  | _ => none

def str? : Json → Option String
  | .text s => some s
  | _ => none

def ofOption (f : α → Json) : Option α → Json
  | some a => f a
  | none => .null

def nat (n : Nat) : Json :=
  .int n

/-- Why a table cannot be written as an object. -/
inductive TableError where
  | keyNotText
  deriving DecidableEq, Repr

def TableError.message : TableError → String
  | .keyNotText => "key must be a string"

end Json

end EventJournal
