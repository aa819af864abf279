import EventJournal.Shape.Coded

/-!
Codecs turn values into text and back. Storage is built with the codec it uses.
-/
namespace EventJournal

/-- The words of the codec that failed. -/
inductive CodecError where
  | encode (reason : String)
  | decode (reason : String)
  deriving DecidableEq, Repr

def CodecError.message : CodecError → String
  | .encode r => "encode failed: " ++ r
  | .decode r => "decode failed: " ++ r

structure Codec where
  contentType : String
  encode : (shape : Shape) → shape.Val → Except CodecError String
  decode : (shape : Shape) → List Text.Symbol → Except CodecError shape.Val

namespace Codec

def json (layout : Json.Layout) : Codec where
  contentType := "application/json"
  encode shape v := .ok ((shape.toJson v).toText layout)
  decode shape s := (shape.ofText s).mapError fun r => .decode r.message

/-- A codec that refuses to encode, to decode, or both, for the reasons given. -/
def refusing (codec : Codec) (encoding decoding : Option String) : Codec :=
  { codec with
    encode := fun shape v =>
      match encoding with
      | some r => .error (.encode r)
      | none => codec.encode shape v
    decode := fun shape s =>
      match decoding with
      | some r => .error (.decode r)
      | none => codec.decode shape s }

def encodeValue [Coded α] (codec : Codec) (a : α) : Except CodecError String :=
  codec.encode (Coded.shape α) (Coded.toVal a)

def decodeValue (α : Type) [Coded α] (codec : Codec) (s : List Text.Symbol) :
    Except CodecError α :=
  (codec.decode (Coded.shape α) s).map Coded.ofVal

/-- A table in the form of a layout. -/
def encodeTable (layout : Json.Layout) (rows : List (Json × Json)) : Except CodecError String :=
  match Json.ofTable rows with
  | .ok j => .ok (j.toText layout)
  | .error e => .error (.encode e.message)

end Codec

end EventJournal
