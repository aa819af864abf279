import EventJournal.Json.Reason

/-!
Shapes of data. A shape says which values belong to it, how they are written as JSON and, for records,
what stands in for a field that is left out. One printer and one reader for shapes serve every type
that has one.
-/
namespace EventJournal

mutual
inductive Shape where
  | bool
  /-- Whole numbers from 0 to a limit, with the name of their width. -/
  | nat (limit : Nat) (width : String)
  /-- Whole numbers of 64 bits with a sign. -/
  | int
  | text
  | uuid
  | time
  /-- Any JSON, in its plain form. -/
  | json
  | option (inner : Shape)
  | list (item : Shape)
  | choice (names : List String)
  /-- A `lenient` record may also end early when it is written as a list. -/
  | record (name : String) (lenient : Bool) (fields : Fields)

inductive Fields where
  | nil
  /-- `absent` is read in the place of a field that is left out; without it the field is required. -/
  | cons (name : String) (shape : Shape) (absent : Option Json) (rest : Fields)
end

mutual
/-- The values of a shape. -/
def Shape.Val : Shape → Type
  | .bool => Bool
  | .nat _ _ => Nat
  | .int => Int
  | .text => String
  | .uuid => Uuid
  | .time => Timestamp
  | .json => Json
  | .option inner => Option inner.Val
  | .list item => List item.Val
  | .choice names => Fin names.length
  | .record _ _ fields => fields.Val

def Fields.Val : Fields → Type
  | .nil => Unit
  | .cons _ shape _ rest => shape.Val × rest.Val
end

namespace Shape

def u8 : Shape := .nat (Nat.pow 2 8 - 1) "u8"
def u32 : Shape := .nat (Nat.pow 2 32 - 1) "u32"
def u64 : Shape := .nat (Nat.pow 2 64 - 1) "u64"
def usize : Shape := .nat (Nat.pow 2 64 - 1) "usize"

end Shape

namespace Fields

def required (name : String) (shape : Shape) (rest : Fields) : Fields :=
  .cons name shape none rest

def optional (name : String) (inner : Shape) (rest : Fields) : Fields :=
  .cons name (.option inner) (some .null) rest

def defaulted (name : String) (shape : Shape) (absent : Json) (rest : Fields) : Fields :=
  .cons name shape (some absent) rest

def count : Fields → Nat
  | .nil => 0
  | .cons _ _ _ rest => rest.count + 1

/-- The values of the fields read so far. -/
def Slots : Fields → Type
  | .nil => Unit
  | .cons _ shape _ rest => Option shape.Val × rest.Slots

def empty : (fields : Fields) → fields.Slots
  | .nil => ()
  | .cons _ _ _ rest => (none, rest.empty)

end Fields

mutual
/-- A value as JSON, the fields of records in their order. -/
def Shape.toJson : (shape : Shape) → shape.Val → Json
  | .bool, b => .bool b
  | .nat _ _, n => .nat n
  | .int, z => .int z
  | .text, s => .text s
  | .uuid, u => .text u.text
  | .time, t => .text t.text
  | .json, j => j
  | .option inner, v => .ofOption inner.toJson v
  | .list item, vs => .list (vs.map item.toJson)
  | .choice names, i => .text (names.get i)
  | .record _ _ fields, v => .object (fields.toMembers v)

def Fields.toMembers : (fields : Fields) → fields.Val → List (String × Json)
  | .nil, () => []
  | .cons name shape _ rest, (v, vs) => (name, shape.toJson v) :: rest.toMembers vs
end

mutual
/-- Reads a value out of a JSON value. -/
def Shape.ofJson : (shape : Shape) → Json → Except Json.Reason shape.Val
  | .bool, j =>
    match j with
    | .bool b => .ok b
    | j => .error (.wrongKind j.found "a boolean")
  | .nat limit width, j =>
    match j with
    | .int z => if 0 ≤ z ∧ z.toNat ≤ limit then .ok z.toNat else .error (.outOfRange z width)
    | j => .error (.wrongKind j.found width)
  | .int, j =>
    match j with
    | .int z => if -Int.pow 2 63 ≤ z ∧ z < Int.pow 2 63 then .ok z else .error (.outOfRange z "i64")
    | j => .error (.wrongKind j.found "i64")
  | .text, j =>
    match j with
    | .text s => .ok s
    | j => .error (.wrongKind j.found "a string")
  | .uuid, j =>
    match j with
    | .text s => (Uuid.ofText s).mapError .uuid
    | j => .error (.wrongKind j.found "a formatted UUID string")
  | .time, j =>
    match j with
    | .text s => (Timestamp.ofText s).mapError .time
    | j => .error (.wrongKind j.found "an RFC 3339 formatted date and time string")
  | .json, j => .ok j
  | .option inner, j =>
    match j with
    | .null => .ok none
    | j => (inner.ofJson j).map some
  | .list item, j =>
    match j with
    | .list js => js.mapM item.ofJson
    | j => .error (.wrongKind j.found "a sequence")
  | .choice names, j =>
    match j with
    | .text s => chosen names s
    | .object [(s, inner)] => do
      let i ← chosen names s
      match inner with
      | .null => .ok i
      | inner => .error (.wrongKind inner.found "unit")
    | .object _ => .error .notOneField
    | j => .error (.wrongKind j.found "string or map")
  | .record name lenient fields, j =>
    match j with
    | .object members => do
      let read ← members.foldlM (fun read (n, v) => fields.putJson n v read) fields.empty
      fields.close read
    | .list js => do
      let v ← fields.ofItems name lenient fields.count 0 js
      if fields.count < js.length then .error (.longList js.length) else .ok v
    | j => .error (.wrongKind j.found ("struct " ++ name))
where
  chosen (names : List String) (s : String) : Except Json.Reason (Fin names.length) :=
    match names.finIdxOf? s with
    | some i => .ok i
    | none => .error (.unknownChoice s names)

/-- Reads the field of that name, if there is one. -/
def Fields.putJson (name : String) (j : Json) :
    (fields : Fields) → fields.Slots → Except Json.Reason fields.Slots
  | .nil, () => .ok ()
  | .cons n shape _ rest, (v, vs) =>
    if n = name then do return (some (← shape.ofJson j), vs)
    else do return (v, ← rest.putJson name j vs)

/-- Reads the fields in their order, when `done` of `total` have been read. -/
def Fields.ofItems (name : String) (lenient : Bool) (total : Nat) :
    (done : Nat) → (fields : Fields) → List Json → Except Json.Reason fields.Val
  | _, .nil, _ => .ok ()
  | done, .cons n shape absent rest, js =>
    match js with
    | j :: js => do
      let v ← shape.ofJson j
      return (v, ← rest.ofItems name lenient total (done + 1) js)
    | [] => do
      if lenient then
        match absent with
        | some j =>
          let v ← shape.ofJson j
          return (v, ← rest.ofItems name lenient total (done + 1) [])
        | none => throw (.missingField n)
      else throw (.shortList done name total)

/-- Fills in what was left out; the first required field among it is missing. -/
def Fields.close : (fields : Fields) → fields.Slots → Except Json.Reason fields.Val
  | .nil, () => .ok ()
  | .cons n shape absent rest, (v, vs) => do
    let v ←
      match v, absent with
      | some v, _ => .ok v
      | none, some j => shape.ofJson j
      | none, none => .error (.missingField n)
    return (v, ← rest.close vs)
end

end EventJournal
