import EventJournal.Json.Reason
import EventJournal.Text.Symbols

/-!
Reading JSON text from left to right. The first thing that does not fit ends the reading with its
reason. Brackets nest at most as deep as the reader is told.
-/
namespace EventJournal.Json

open Text (Symbol)

/-- A reader takes symbols from the front of a text. -/
abbrev Scan (α : Type) := List Symbol → Except Reason (α × List Symbol)

namespace Scan

def isSpace : Symbol → Bool
  | some c => c == ' ' || c == '\n' || c == '\t' || c == '\r'
  | none => false

def skipSpaces (s : List Symbol) : List Symbol :=
  s.dropWhile isSpace

def isDigit : Symbol → Bool
  | some c => '0' ≤ c && c ≤ '9'
  | none => false

/-- The rest of a word whose first letter has been taken. -/
def word : List Char → List Symbol → Except Reason (List Symbol)
  | [], s => .ok s
  | _ :: _, [] => .error (.ended .value)
  | c :: cs, x :: s => if x = some c then word cs s else .error .expectedWord

/-! Strings -/

/-- What stands next inside a string: its end, a character, or a byte of no character. -/
inductive Piece where
  | close
  | char (c : Char)
  | stray
  deriving DecidableEq, Repr

def simpleEscape? (c : Char) : Option Char :=
  if c == '"' || c == '\\' || c == '/' then some c
  else if c == 'b' then some (Char.ofNat 8)
  else if c == 'f' then some (Char.ofNat 12)
  else if c == 'n' then some '\n'
  else if c == 'r' then some '\r'
  else if c == 't' then some '\t'
  else none

/-- Four hexadecimal digits. A text too short for four bytes has ended. -/
def hexFour (s : List Symbol) : Except Reason (Nat × List Symbol) :=
  match s with
  | some a :: some b :: some c :: some d :: r =>
    match Text.hexNumber? 0 [a, b, c, d] with
    | some n => .ok (n, r)
    | none => .error .badEscape
  | _ =>
    if 4 ≤ s.foldl (fun n a => n + Symbol.width a) 0 then .error .badEscape
    else .error (.ended .text)

def isLead (n : Nat) : Bool :=
  0xD800 ≤ n && n ≤ 0xDBFF

def isTrail (n : Nat) : Bool :=
  0xDC00 ≤ n && n ≤ 0xDFFF

def wanted (c : Char) : List Symbol → Except Reason (List Symbol)
  | [] => .error (.ended .text)
  | x :: r => if x = some c then .ok r else .error .hexEscapeEnd

/-- A character by its number, or by a pair of surrogates. -/
def unicodeEscape (s : List Symbol) : Except Reason (Char × List Symbol) := do
  let (n, r) ← hexFour s
  if isTrail n then .error .loneSurrogate
  else if isLead n then
    let r ← wanted '\\' r
    let r ← wanted 'u' r
    let (m, r) ← hexFour r
    if isTrail m then .ok (Char.ofNat (0x10000 + (n - 0xD800) * 1024 + (m - 0xDC00)), r)
    else .error .loneSurrogate
  else .ok (Char.ofNat n, r)

def escape : List Symbol → Except Reason (Char × List Symbol)
  | [] => .error (.ended .text)
  | none :: _ => .error .badEscape
  | some c :: r =>
    match simpleEscape? c with
    | some d => .ok (d, r)
    | none => if c = 'u' then unicodeEscape r else .error .badEscape

def piece : Scan Piece
  | [] => .error (.ended .text)
  | none :: r => .ok (.stray, r)
  | some c :: r =>
    if c = '"' then .ok (.close, r)
    else if c = '\\' then do
      let (d, r) ← escape r
      return (.char d, r)
    else if c.toNat < 0x20 then .error .controlCharacter
    else .ok (.char c, r)

/-- The characters up to the closing quote, in at most `fuel` pieces. Bytes of no character are
refused once the quote is found. -/
def textFrom : Nat → Bool → Scan (List Char)
  | 0, _, _ => .error (.ended .text)
  | fuel + 1, whole, s => do
    match ← piece s with
    | (.close, r) => if whole then return ([], r) else throw .badCodePoint
    | (.stray, r) => textFrom fuel false r
    | (.char c, r) =>
      let (cs, r) ← textFrom fuel whole r
      return (c :: cs, r)

/-- A string whose opening quote has been taken. -/
def text : Scan String := fun s => do
  let (cs, r) ← textFrom (s.length + 1) true s
  return (String.ofList cs, r)

def skipEscape : List Symbol → Except Reason (List Symbol)
  | [] => .error (.ended .text)
  | none :: _ => .error .badEscape
  | some c :: r =>
    if (simpleEscape? c).isSome then .ok r
    else if c = 'u' then (hexFour r).map Prod.snd
    else .error .badEscape

/-- Passes over a string; what its escapes stand for does not matter. -/
def skipTextFrom : Nat → List Symbol → Except Reason (List Symbol)
  | 0, _ => .error (.ended .text)
  | fuel + 1, s =>
    match s with
    | [] => .error (.ended .text)
    | none :: r => skipTextFrom fuel r
    | some c :: r =>
      if c = '"' then .ok r
      else if c = '\\' then do skipTextFrom fuel (← skipEscape r)
      else if c.toNat < 0x20 then .error .controlCharacter
      else skipTextFrom fuel r

def skipText (s : List Symbol) : Except Reason (List Symbol) :=
  skipTextFrom (s.length + 1) s

/-! Numbers -/

inductive Numeral where
  | int (z : Int)
  | float (x : Binary64)
  deriving DecidableEq, Repr

def Numeral.found : Numeral → Found
  | .int z => .int z
  | .float x => .float x

def greatestWord : Nat := Nat.pow 2 64 - 1

/-- Adds digits to a number while it fits 64 bits, and counts them. -/
def accumulate (n : Nat) : List Symbol → Nat × Nat
  | some c :: r =>
    let m := n * 10 + (c.toNat - 48)
    if greatestWord < m then (n, 0)
    else
      let (k, used) := accumulate m r
      (k, used + 1)
  | _ => (n, 0)

def digitRun (s : List Symbol) : List Symbol × List Symbol :=
  (s.takeWhile isDigit, s.dropWhile isDigit)

def floatOf (negative : Bool) (significand : Nat) (exponent : Int) : Except Reason Numeral :=
  match Binary64.ofDecimal? negative significand exponent with
  | some x => .ok (.float x)
  | none => .error .numberRange

def isExponentMark (x : Symbol) : Bool :=
  x == some 'e' || x == some 'E'

def digitsValue (n : Nat) : List Symbol → Nat
  | some c :: r => digitsValue (n * 10 + (c.toNat - 48)) r
  | _ => n

/-- The exponent behind its mark. One too large to hold refuses the number, unless the number is zero
or the exponent is negative. -/
def exponentPart (negative : Bool) (significand : Nat) (start : Int) : Scan Numeral := fun s => do
  let (down, s) :=
    match s with
    | some '+' :: r => (false, r)
    | some '-' :: r => (true, r)
    | _ => (false, s)
  if s.isEmpty then throw (.ended .value)
  let (ds, r) := digitRun s
  if ds.isEmpty then throw .badNumber
  let e := digitsValue 0 ds
  if Nat.pow 2 31 ≤ e then
    if significand ≠ 0 ∧ !down then throw .numberRange
    return (.float (Binary64.zero negative), r)
  return (← floatOf negative significand (if down then start - e else start + e), r)

/-- The fraction behind the point. Digits that no longer fit are dropped. -/
def fractionPart (negative : Bool) (significand : Nat) (start : Int) : Scan Numeral := fun s => do
  if s.isEmpty then throw (.ended .value)
  let (ds, r) := digitRun s
  if ds.isEmpty then throw .badNumber
  let (n, used) := accumulate significand ds
  match r with
  | x :: r' =>
    if isExponentMark x then exponentPart negative n (start - used) r'
    else return (← floatOf negative n (start - used), r)
  | [] => return (← floatOf negative n (start - used), r)

/-- A number whose sign has been taken. Whole numbers that fit 64 bits stay whole; minus zero and
all other numbers are floats. -/
def numeral (negative : Bool) : Scan Numeral := fun s => do
  if s.isEmpty then throw (.ended .value)
  let (ds, r) := digitRun s
  if ds.isEmpty then throw .badNumber
  if ds.head? = some (some '0') ∧ 1 < ds.length then throw .badNumber
  let (n, used) := accumulate 0 ds
  let dropped : Nat := ds.length - used
  match r with
  | some '.' :: r' => fractionPart negative n dropped r'
  | some 'e' :: r' | some 'E' :: r' => exponentPart negative n dropped r'
  | _ =>
    if 0 < dropped then return (← floatOf negative n dropped, r)
    else if !negative then return (.int n, r)
    else if 0 < n ∧ n ≤ Nat.pow 2 63 then return (.int (-n), r)
    else return (← floatOf true n 0, r)

/-- Passes over a number whose sign has been taken. -/
def skipNumber (s : List Symbol) : Except Reason (List Symbol) := do
  let (ds, r) := digitRun s
  if ds.isEmpty then throw .badNumber
  if ds.head? = some (some '0') ∧ 1 < ds.length then throw .badNumber
  match r with
  | some '.' :: r =>
    let (fs, r) := digitRun r
    if fs.isEmpty then throw .badNumber
    match r with
    | some 'e' :: r | some 'E' :: r => exponent r
    | _ => return r
  | some 'e' :: r | some 'E' :: r => exponent r
  | _ => return r
where
  exponent (s : List Symbol) : Except Reason (List Symbol) := do
    let s :=
      match s with
      | some '+' :: r | some '-' :: r => r
      | _ => s
    let (ds, r) := digitRun s
    if ds.isEmpty then throw .badNumber
    return r

/-! Lists and objects, whose opening bracket has been taken -/

/-- Stands before the next item, or says that there is none. -/
def nextItem (first : Bool) (s : List Symbol) : Except Reason (Bool × List Symbol) :=
  match skipSpaces s with
  | [] => .error (.ended .list)
  | some ']' :: r => .ok (false, some ']' :: r)
  | x :: r =>
    if first then .ok (true, x :: r)
    else if x = some ',' then
      match skipSpaces r with
      | [] => .error (.ended .value)
      | some ']' :: _ => .error .trailingComma
      | r => .ok (true, r)
    else .error .expectedListEnd

def endList (s : List Symbol) : Except Reason (List Symbol) :=
  match skipSpaces s with
  | [] => .error (.ended .list)
  | some ']' :: r => .ok r
  | some ',' :: r =>
    match skipSpaces r with
    | some ']' :: _ => .error .trailingComma
    | _ => .error .trailingCharacters
  | _ => .error .trailingCharacters

/-- All items, in at most `fuel` steps. -/
def items (item : Scan α) : Nat → Bool → Scan (List α)
  | 0, _, _ => .error (.ended .list)
  | fuel + 1, first, s => do
    match ← nextItem first s with
    | (false, r) => return ([], r)
    | (true, r) =>
      let (a, r) ← item r
      let (as, r) ← items item fuel false r
      return (a :: as, r)

/-- Stands behind the opening quote of the next name, or says that there is none. -/
def nextName (first : Bool) (s : List Symbol) : Except Reason (Bool × List Symbol) :=
  match skipSpaces s with
  | [] => .error (.ended .object)
  | some '\x7d' :: r => .ok (false, some '\x7d' :: r)
  | x :: r =>
    if first then (if x = some '"' then .ok (true, r) else .error .keyNotText)
    else if x = some ',' then
      match skipSpaces r with
      | [] => .error (.ended .value)
      | some '"' :: r => .ok (true, r)
      | some '\x7d' :: _ => .error .trailingComma
      | _ => .error .keyNotText
    else .error .expectedObjectEnd

def colonSign (s : List Symbol) : Except Reason (List Symbol) :=
  match skipSpaces s with
  | [] => .error (.ended .object)
  | x :: r => if x = some ':' then .ok r else .error .expectedColon

def endObject (s : List Symbol) : Except Reason (List Symbol) :=
  match skipSpaces s with
  | [] => .error (.ended .object)
  | some '\x7d' :: r => .ok r
  | some ',' :: _ => .error .trailingComma
  | _ => .error .trailingCharacters

/-- All fields, each put into what has been gathered before. The reader of a field stands before the
colon. -/
def fields (field : String → β → Scan β) : Nat → Bool → β → Scan β
  | 0, _, _, _ => .error (.ended .object)
  | fuel + 1, first, gathered, s => do
    match ← nextName first s with
    | (false, r) => return (gathered, r)
    | (true, r) =>
      let (name, r) ← text r
      let (gathered, r) ← field name gathered r
      fields field fuel false gathered r

/-- Any value, with room for `depth` more nested brackets. -/
def value (depth : Nat) : Scan Json := fun s =>
  match skipSpaces s with
  | [] => .error (.ended .value)
  | none :: _ => .error .expectedValue
  | some c :: r =>
    if c = 'n' then (word "ull".toList r).map fun r => (.null, r)
    else if c = 't' then (word "rue".toList r).map fun r => (.bool true, r)
    else if c = 'f' then (word "alse".toList r).map fun r => (.bool false, r)
    else if c = '-' then (numeral true r).map fun (n, r) => (number n, r)
    else if isDigit (some c) then (numeral false (some c :: r)).map fun (n, r) => (number n, r)
    else if c = '"' then (text r).map fun (t, r) => (.text t, r)
    else if c = '[' then
      match depth with
      | 0 => .error .tooDeep
      | d + 1 => do
        let (xs, r) ← items (value d) (r.length + 1) true r
        return (.list xs, ← endList r)
    else if c = '\x7b' then
      match depth with
      | 0 => .error .tooDeep
      | d + 1 => do
        let (fs, r) ← fields (member (value d)) (r.length + 1) true [] r
        return (.object fs, ← endObject r)
    else .error .expectedValue
where
  number : Numeral → Json
    | .int z => .int z
    | .float x => .float x
  member (item : Scan Json) (name : String) (gathered : List (String × Json)) :
      Scan (List (String × Json)) := fun s => do
    let (j, r) ← item (← colonSign s)
    return (insertField name j gathered, r)

/-! Values that are passed over -/

/-- Brackets that are still open, the innermost first. -/
inductive Bracket where
  | list
  | object
  deriving DecidableEq, Repr

def Bracket.expectedEnd : Bracket → Reason
  | .list => .expectedListEnd
  | .object => .expectedObjectEnd

def Bracket.ended : Bracket → Reason
  | .list => .ended .list
  | .object => .ended .object

def Bracket.closes : Bracket → Symbol → Bool
  | .list, x => x == some ']'
  | .object, x => x == some '\x7d'

/-- Stands before the value of the next field. -/
def skipName (s : List Symbol) : Except Reason (List Symbol) :=
  match skipSpaces s with
  | [] => .error (.ended .object)
  | some '"' :: r => do colonSign (← skipText r)
  | _ => .error .keyNotText

/-- Stands before the next value inside a bracket. -/
def enter (b : Bracket) (rest : List Bracket) (s : List Symbol) :
    Except Reason (Option (List Bracket) × List Symbol) :=
  match b with
  | .list => .ok (some (b :: rest), s)
  | .object => (skipName s).map fun r => (some (b :: rest), r)

/-- Behind a value or an opening bracket: closes what ends here and stands before the next value, or
behind the whole if nothing is left open. -/
def skipEnds : Nat → Bool → List Bracket → List Symbol →
    Except Reason (Option (List Bracket) × List Symbol)
  | _, _, [], s => .ok (none, s)
  | 0, _, b :: _, _ => .error b.ended
  | fuel + 1, behindValue, b :: rest, s =>
    match skipSpaces s with
    | [] => .error b.ended
    | x :: r =>
      if behindValue && x == some ',' then enter b rest r
      else if b.closes x then skipEnds fuel true rest r
      else if behindValue then .error b.expectedEnd
      else enter b rest (x :: r)

/-- Passes over a value and over what the open brackets still hold. -/
def skipFrom : Nat → List Bracket → List Symbol → Except Reason (List Symbol)
  | 0, _, _ => .error (.ended .value)
  | fuel + 1, brackets, s => do
    match skipSpaces s with
    | [] => throw (.ended .value)
    | none :: _ => throw .expectedValue
    | some c :: r =>
      if c = '[' then continueWith fuel false (.list :: brackets) r
      else if c = '\x7b' then continueWith fuel false (.object :: brackets) r
      else
        let r ←
          if c = 'n' then word "ull".toList r
          else if c = 't' then word "rue".toList r
          else if c = 'f' then word "alse".toList r
          else if c = '-' then skipNumber r
          else if isDigit (some c) then skipNumber (some c :: r)
          else if c = '"' then skipText r
          else throw .expectedValue
        continueWith fuel true brackets r
where
  continueWith (fuel : Nat) (behindValue : Bool) (brackets : List Bracket) (s : List Symbol) :
      Except Reason (List Symbol) := do
    match ← skipEnds (s.length + 1) behindValue brackets s with
    | (none, r) => return r
    | (some brackets, r) => skipFrom fuel brackets r

def skipValue (s : List Symbol) : Except Reason (List Symbol) :=
  skipFrom (s.length + 1) [] s

/-- The brackets that may nest in a text. -/
def nesting : Nat := 127

/-- Nothing but blanks may follow. -/
def finish (a : α) (s : List Symbol) : Except Reason α :=
  if (skipSpaces s).isEmpty then .ok a else .error .trailingCharacters

/-- The whole of a text, read by `scan`. -/
def readAll (scan : Scan α) (s : List Symbol) : Except Reason α := do
  let (a, r) ← scan s
  finish a r

end Scan

/-- A plain value from its text. -/
def ofText (s : String) : Except Reason Json :=
  Scan.readAll (Scan.value Scan.nesting) (Text.symbols s)

end EventJournal.Json
