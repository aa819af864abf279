import EventJournal.Uuid

/-!
Reading identifiers. Four forms are accepted: 32 digits, the hyphenated form, that form in braces and
that form behind `urn:uuid:`. A refusal says what is wrong with the first part that does not fit.
-/
namespace EventJournal.Uuid

inductive ParseError where
  | length (found : Nat)
  | character (found : Char) (index : Nat)
  | groupCount (found : Nat)
  | groupLength (group found : Nat)
  deriving DecidableEq, Repr

/-- The number of digits of each group. -/
def groupSize (group : Nat) : Nat :=
  if group = 0 then 8 else if group = 4 then 12 else 4

def ParseError.message : ParseError → String
  | .length n => "invalid length: found " ++ Nat.repr n
  | .character c i => "invalid character: found `" ++ String.singleton c ++ "` at " ++ Nat.repr i
  | .groupCount n => "invalid group count: expected 5, found " ++ Nat.repr n
  | .groupLength g n =>
    "invalid group length in group " ++ Nat.repr g ++ ": expected " ++ Nat.repr (groupSize g) ++
      ", found " ++ Nat.repr n

/-- The digits of the hyphenated form, if the hyphens stand where they belong. -/
def ungroup? (s : List Char) : Option (List Char) :=
  if s.length = 36 ∧ hyphens.all (fun i => s[i]? == some '-') then
    some (s.take 8 ++ (s.drop 9).take 4 ++ (s.drop 14).take 4 ++ (s.drop 19).take 4 ++ s.drop 24)
  else none

def parseHyphenated? (s : List Char) : Option Uuid := do
  some (ofNat (← Text.hexNumber? 0 (← ungroup? s)))

def parseSimple? (s : List Char) : Option Uuid := do
  some (ofNat (← Text.hexNumber? 0 s))

/-- The inside of a pair of braces. -/
def unbraced? : List Char → Option (List Char)
  | '{' :: r => if r.getLast? = some '}' then some r.dropLast else none
  | _ => none

def urnMark : List Char :=
  "urn:uuid:".toList

/-- What follows the mark of a name, in either case of letters. -/
def unmarked? (s : List Char) : Option (List Char) :=
  if (s.take 9).map Char.toLower = urnMark then some (s.drop 9) else none

def width (s : List Char) : Nat :=
  s.foldl (fun n c => n + c.utf8Size) 0

/-- The first character that is no digit and no hyphen, with its place in bytes. -/
def firstStray? (index : Nat) : List Char → Option (Char × Nat)
  | [] => none
  | c :: r =>
    if c == '-' || (Text.hexValue? c).isSome then firstStray? (index + c.utf8Size) r else some (c, index)

def hyphenPlaces (index : Nat) : List Char → List Nat
  | [] => []
  | c :: r => if c == '-' then index :: hyphenPlaces (index + 1) r else hyphenPlaces (index + 1) r

/-- The first of the groups 0 to 3 that does not end where it should, or else the last group. -/
def groupFault (places : List Nat) (len : Nat) : ParseError :=
  match ((places.zip hyphens).zipIdx).find? fun p => p.1.1 != p.1.2 with
  | some ((found, _), g) => .groupLength g (found - if g = 0 then 0 else hyphens.getD (g - 1) 0 + 1)
  | none => .groupLength 4 (len - 24)

/-- What is wrong with a refused text. `offset` counts the bytes passed over before `s`, `len` those
of the whole text, and a `bare` text might have been 32 digits. -/
def fault (s : List Char) (offset len : Nat) (bare : Bool) : ParseError :=
  match firstStray? offset s with
  | some (c, i) => .character c i
  | none =>
    let places := hyphenPlaces 0 s
    if places.isEmpty ∧ bare then .length len
    else if places.length ≠ 4 then .groupCount (places.length + 1)
    else groupFault places len

def wholeFault (s : List Char) : ParseError :=
  match unbraced? s with
  | some r => fault r 1 (width s) false
  | none =>
    match unmarked? s with
    | some r => fault r 9 (width s) false
    | none => fault s 0 (width s) true

/-- The hyphenated form that a text of fitting length must hold. -/
def hyphenated? (s : List Char) : Option (List Char) :=
  if width s = 36 then some s
  else if width s = 38 then unbraced? s
  else if width s = 45 then unmarked? s
  else none

def parse (s : List Char) : Except ParseError Uuid :=
  if width s = 0 ∨ 45 < width s then .error (.length (width s))
  else
    match hyphenated? s with
    | some r =>
      match parseHyphenated? r with
      | some u => .ok u
      | none => .error (fault r 0 (width r) false)
    | none =>
      if width s = 32 then
        match parseSimple? s with
        | some u => .ok u
        | none => .error (wholeFault s)
      else .error (wholeFault s)

def ofText (s : String) : Except ParseError Uuid :=
  parse s.toList

end EventJournal.Uuid
