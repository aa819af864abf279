import EventJournal.Json.Scanner
import EventJournal.Shape

/-!
Reading the values of a shape straight from text. A value of the wrong kind is refused where it
stands, before the text behind it is looked at.
-/
namespace EventJournal

open Json (Scan Reason)
open Text (Symbol)

namespace Scan

open Json.Scan

/-- What stands in front, when it is not what was wanted; or why even that cannot be read. -/
def mismatch (wanted : String) (s : List Symbol) : Reason :=
  match skipSpaces s with
  | [] => .ended .value
  | none :: _ => .expectedValue
  | some c :: r =>
    if c = 'n' then told (word "ull".toList r) fun _ => .null
    else if c = 't' then told (word "rue".toList r) fun _ => .bool true
    else if c = 'f' then told (word "alse".toList r) fun _ => .bool false
    else if c = '-' then told (numeral true r) fun n => n.1.found
    else if isDigit (some c) then told (numeral false (some c :: r)) fun n => n.1.found
    else if c = '"' then told (text r) fun t => .text t.1
    else if c = '[' then .wrongKind .list wanted
    else if c = '{' then .wrongKind .object wanted
    else .expectedValue
where
  told {α : Type} (read : Except Reason α) (found : α → Json.Found) : Reason :=
    match read with
    | .ok a => .wrongKind (found a) wanted
    | .error e => e

/-- A number, where `wanted` names what is expected. -/
def number (wanted : String) : Scan Json.Scan.Numeral := fun s =>
  match skipSpaces s with
  | some c :: r =>
    if c = '-' then numeral true r
    else if isDigit (some c) then numeral false (some c :: r)
    else .error (mismatch wanted s)
  | _ => .error (mismatch wanted s)

def quotedText (wanted : String) : Scan String := fun s =>
  match skipSpaces s with
  | some c :: r => if c = '"' then text r else .error (mismatch wanted s)
  | _ => .error (mismatch wanted s)

/-- A text turned into something else, if it can be. -/
def convertedText (wanted : String) (convert : String → Except ε α) (reason : ε → Reason) :
    Scan α := fun s => do
  let (t, r) ← quotedText wanted s
  let a ← (convert t).mapError reason
  return (a, r)

def truth : Scan Bool := fun s =>
  match skipSpaces s with
  | some c :: r =>
    if c = 't' then (word "rue".toList r).map fun r => (true, r)
    else if c = 'f' then (word "alse".toList r).map fun r => (false, r)
    else .error (mismatch "a boolean" s)
  | _ => .error (mismatch "a boolean" s)

/-- One of a few names, as a text or as the name of a lone field that holds nothing. -/
def choice (names : List String) : Scan (Fin names.length) := fun s =>
  match skipSpaces s with
  | [] => .error (.ended .value)
  | some c :: r =>
    if c = '"' then do
      let (t, r) ← text r
      return (← Shape.ofJson.chosen names t, r)
    else if c = '{' then do
      let (t, r) ← loneName r
      let i ← Shape.ofJson.chosen names t
      let r ← colonSign r
      let r ← nothing r
      match skipSpaces r with
      | [] => throw (.ended .object)
      | some '}' :: r => return (i, r)
      | _ => throw .expectedValue
    else .error .expectedValue
  | _ => .error .expectedValue
where
  loneName : Scan String := fun s =>
    match skipSpaces s with
    | [] => .error (.ended .object)
    | some '"' :: r => text r
    | some '}' :: _ => .error .expectedValue
    | _ => .error .keyNotText
  nothing (s : List Symbol) : Except Reason (List Symbol) :=
    match skipSpaces s with
    | some 'n' :: r => word "ull".toList r
    | _ => .error (mismatch "unit" s)

end Scan

open Json.Scan

mutual
/-- A value of the shape, with room for `depth` nested brackets. -/
def Shape.scan : (shape : Shape) → (depth : Nat) → Scan shape.Val
  | .bool, _ => Scan.truth
  | .nat limit width, _ => fun s => do
    match ← Scan.number width s with
    | (.int z, r) =>
      if 0 ≤ z ∧ z.toNat ≤ limit then return (z.toNat, r) else throw (.outOfRange z width)
    | (.float x, _) => throw (.wrongKind (.float x) width)
  | .int, _ => fun s => do
    match ← Scan.number "i64" s with
    | (.int z, r) =>
      if -Int.pow 2 63 ≤ z ∧ z < Int.pow 2 63 then return (z, r) else throw (.outOfRange z "i64")
    | (.float x, _) => throw (.wrongKind (.float x) "i64")
  | .text, _ => Scan.quotedText "a string"
  | .uuid, _ => Scan.convertedText "a formatted UUID string" Uuid.ofText .uuid
  | .time, _ =>
    Scan.convertedText "an RFC 3339 formatted date and time string" Timestamp.ofText .time
  | .json, depth => fun s => (value depth s).map fun (j, r) => (j.plain, r)
  | .option inner, depth => fun s =>
    match skipSpaces s with
    | some 'n' :: r => (word "ull".toList r).map fun r => (none, r)
    | _ => (inner.scan depth s).map fun (v, r) => (some v, r)
  | .list item, depth => fun s =>
    match skipSpaces s, depth with
    | some '[' :: _, 0 => .error .tooDeep
    | some '[' :: r, d + 1 => do
      let (vs, r) ← items (item.scan d) (r.length + 1) true r
      return (vs, ← endList r)
    | _, _ => .error (Scan.mismatch "a sequence" s)
  | .choice names, _ => Scan.choice names
  | .record name lenient members, depth => fun s =>
    match skipSpaces s, depth with
    | some '[' :: _, 0 | some '{' :: _, 0 => .error .tooDeep
    | some '[' :: r, d + 1 => do
      let (v, r) ← members.scanItems d name lenient members.count 0 r
      return (v, ← endList r)
    | some '{' :: r, d + 1 => do
      let (read, r) ← fields (fun n read => members.scanField d n read) (r.length + 1) true
        members.empty r
      let v ← members.close read
      return (v, ← endObject r)
    | _, _ => .error (Scan.mismatch ("struct " ++ name) s)

/-- The field of that name, from its colon on. A field of no name here is passed over, and none may
come twice. -/
def Fields.scanField (depth : Nat) (name : String) :
    (members : Fields) → members.Slots → Scan members.Slots
  | .nil, () => fun s => do return ((), ← skipValue (← colonSign s))
  | .cons n shape _ rest, (v, vs) => fun s =>
    if n = name then do
      if v.isSome then throw (.duplicateField n)
      let (v, r) ← shape.scan depth (← colonSign s)
      return ((some v, vs), r)
    else do
      let (vs, r) ← rest.scanField depth name vs s
      return ((v, vs), r)

/-- The fields in their order, when `done` of `total` have been read. -/
def Fields.scanItems (depth : Nat) (name : String) (lenient : Bool) (total : Nat) :
    (done : Nat) → (members : Fields) → Scan members.Val
  | _, .nil => fun s => .ok ((), s)
  | done, .cons n shape absent rest => fun s => do
    match ← nextItem (done == 0) s with
    | (true, r) =>
      let (v, r) ← shape.scan depth r
      let (vs, r) ← rest.scanItems depth name lenient total (done + 1) r
      return ((v, vs), r)
    | (false, r) =>
      if lenient then
        match absent with
        | some j =>
          let v ← shape.ofJson j
          let (vs, r) ← rest.scanItems depth name lenient total (done + 1) r
          return ((v, vs), r)
        | none => throw (.missingField n)
      else throw (.shortList done name total)
end

/-- The whole of a text as a value of the shape. -/
def Shape.ofText (shape : Shape) (s : List Symbol) : Except Reason shape.Val :=
  readAll (shape.scan nesting) s

end EventJournal
