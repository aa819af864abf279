import EventJournal.Json
import EventJournal.Number.Shortest
import EventJournal.Text.Quoted

/-!
The text of JSON values, without blanks or laid out with two spaces per level.
-/
namespace EventJournal.Json

inductive Layout where
  | compact
  | pretty
  deriving DecidableEq, Repr

def escapedChar (c : Char) : List Char :=
  if c == '"' then ['\\', '"']
  else if c == '\\' then ['\\', '\\']
  else if c.toNat == 8 then ['\\', 'b']
  else if c.toNat == 12 then ['\\', 'f']
  else if c == '\n' then ['\\', 'n']
  else if c == '\r' then ['\\', 'r']
  else if c == '\t' then ['\\', 't']
  else if c.toNat < 0x20 then ['\\', 'u'] ++ Text.hexDigits 4 c.toNat
  else [c]

def textChars (s : String) : List Char :=
  '"' :: s.toList.flatMap escapedChar ++ ['"']

def intChars (z : Int) : List Char :=
  if z < 0 then '-' :: Nat.toDigits 10 z.natAbs else Nat.toDigits 10 z.natAbs

/-- A new line at a level; nothing in compact text. -/
def newline (layout : Layout) (level : Nat) : List Char :=
  match layout with
  | .compact => []
  | .pretty => '\n' :: List.replicate (2 * level) ' '

def colon : Layout → List Char
  | .compact => [':']
  | .pretty => [':', ' ']

mutual
def write (layout : Layout) (level : Nat) : Json → List Char
  | .null => "null".toList
  | .bool b => (if b then "true" else "false").toList
  | .int z => intChars z
  | .float x => x.text.toList
  | .text s => textChars s
  | .list [] => ['[', ']']
  | .list (j :: rest) =>
    '[' :: newline layout (level + 1) ++ write layout (level + 1) j ++ writeItems layout level rest
  | .object [] => ['{', '}']
  | .object ((n, v) :: rest) =>
    '{' :: newline layout (level + 1) ++ textChars n ++ colon layout ++ write layout (level + 1) v ++
      writeFields layout level rest

/-- The items behind the first one, and the closing bracket. -/
def writeItems (layout : Layout) (level : Nat) : List Json → List Char
  | [] => newline layout level ++ [']']
  | j :: rest =>
    ',' :: newline layout (level + 1) ++ write layout (level + 1) j ++ writeItems layout level rest

def writeFields (layout : Layout) (level : Nat) : List (String × Json) → List Char
  | [] => newline layout level ++ ['}']
  | (n, v) :: rest =>
    ',' :: newline layout (level + 1) ++ textChars n ++ colon layout ++
      write layout (level + 1) v ++ writeFields layout level rest
end

def chars (layout : Layout) (j : Json) : List Char :=
  j.write layout 0

def toText (layout : Layout) (j : Json) : String :=
  String.ofList (j.chars layout)

/-- A table as an object. Texts, whole numbers, truth values and floats serve as names. -/
def nameOf : Json → Except TableError String
  | .text s => .ok s
  | .int z => .ok (String.ofList (intChars z))
  | .bool b => .ok (if b then "true" else "false")
  | .float x => .ok x.text
  | _ => .error .keyNotText

def ofTable (rows : List (Json × Json)) : Except TableError Json := do
  let fields ← rows.mapM fun (k, v) => do return (← nameOf k, v)
  return plain (.object fields)

end EventJournal.Json
