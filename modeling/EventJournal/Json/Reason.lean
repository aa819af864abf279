import EventJournal.Json
import EventJournal.Number.Shortest
import EventJournal.Text.Quoted
import EventJournal.Timestamp.Parser
import EventJournal.Uuid.Parser

/-!
Why a text or a value could not be read, and the words for it.
-/
namespace EventJournal.Json

/-- What was being read when the text ended. -/
inductive Part where
  | value
  | text
  | list
  | object
  deriving DecidableEq, Repr

def Part.name : Part → String
  | .value => "a value"
  | .text => "a string"
  | .list => "a list"
  | .object => "an object"

/-- What stood in the place of something else. -/
inductive Found where
  | null
  | bool (b : Bool)
  | int (z : Int)
  | float (x : Binary64)
  | text (s : String)
  | list
  | object
  deriving DecidableEq, Repr

def Found.name : Found → String
  | .null => "null"
  | .bool b => "boolean `" ++ (if b then "true" else "false") ++ "`"
  | .int z => "integer `" ++ toString z ++ "`"
  | .float x => "floating point `" ++ x.text ++ "`"
  | .text s => "string " ++ Text.quoted s
  | .list => "sequence"
  | .object => "map"

def found : Json → Found
  | .null => .null
  | .bool b => .bool b
  | .int z => .int z
  | .float x => .float x
  | .text s => .text s
  | .list _ => .list
  | .object _ => .object

inductive Reason where
  | ended (inside : Part)
  | expectedValue
  | expectedWord
  | expectedColon
  | expectedListEnd
  | expectedObjectEnd
  | trailingComma
  | trailingCharacters
  | keyNotText
  | badNumber
  | numberRange
  | badEscape
  | controlCharacter
  | badCodePoint
  | hexEscapeEnd
  | loneSurrogate
  | tooDeep
  | wrongKind (found : Found) (wanted : String)
  | outOfRange (found : Int) (wanted : String)
  | missingField (name : String)
  | duplicateField (name : String)
  | shortList (found : Nat) (record : String) (fields : Nat)
  | longList (found : Nat)
  | notOneField
  | unknownChoice (found : String) (choices : List String)
  | uuid (error : Uuid.ParseError)
  | time (error : Timestamp.ParseError)
  deriving DecidableEq, Repr

/-- Two names are joined by `or`, more are listed. -/
def choiceList (choices : List String) : String :=
  match choices.map fun c => "`" ++ c ++ "`" with
  | [] => ""
  | [a] => a
  | [a, b] => a ++ " or " ++ b
  | cs => "one of " ++ ", ".intercalate cs

def Reason.message : Reason → String
  | .ended p => "EOF while parsing " ++ p.name
  | .expectedValue => "expected value"
  | .expectedWord => "expected ident"
  | .expectedColon => "expected `:`"
  | .expectedListEnd => "expected `,` or `]`"
  | .expectedObjectEnd => "expected `,` or `\x7d`"
  | .trailingComma => "trailing comma"
  | .trailingCharacters => "trailing characters"
  | .keyNotText => "key must be a string"
  | .badNumber => "invalid number"
  | .numberRange => "number out of range"
  | .badEscape => "invalid escape"
  | .controlCharacter => "control character (\\u0000-\\u001F) found while parsing a string"
  | .badCodePoint => "invalid unicode code point"
  | .hexEscapeEnd => "unexpected end of hex escape"
  | .loneSurrogate => "lone leading surrogate in hex escape"
  | .tooDeep => "recursion limit exceeded"
  | .wrongKind f w => "invalid type: " ++ f.name ++ ", expected " ++ w
  | .outOfRange z w => "invalid value: integer `" ++ toString z ++ "`, expected " ++ w
  | .missingField n => "missing field `" ++ n ++ "`"
  | .duplicateField n => "duplicate field `" ++ n ++ "`"
  | .shortList n r k =>
    "invalid length " ++ Nat.repr n ++ ", expected struct " ++ r ++ " with " ++ Nat.repr k ++
      (if k = 1 then " element" else " elements")
  | .longList n => "invalid length " ++ Nat.repr n ++ ", expected fewer elements in array"
  | .notOneField => "invalid value: map, expected map with a single key"
  | .unknownChoice f cs => "unknown variant `" ++ f ++ "`, expected " ++ choiceList cs
  | .uuid e => "UUID parsing failed: " ++ e.message
  | .time e => e.message

end EventJournal.Json
