import EventJournal.Text.Blank
import EventJournal.Timestamp

/-!
Reading points in time. Blanks may stand before each number and each separator; the date and the time
are parted by `T`, `t` or a space, and an offset from universal time must follow.
-/
namespace EventJournal.Timestamp

inductive ParseError where
  | tooShort
  | tooLong
  | invalid
  | outOfRange
  | impossible
  deriving DecidableEq, Repr

def ParseError.message : ParseError → String
  | .tooShort => "premature end of input"
  | .tooLong => "trailing input"
  | .invalid => "input contains invalid characters"
  | .outOfRange => "input is out of range"
  | .impossible => "no possible date and time matching input"

/-- A reader takes characters from the front of the text. -/
abbrev Reader := StateT (List Char) (Except ParseError)

def blanks : Reader Unit :=
  modify Text.trimStart

def decimalValue (n : Nat) : List Char → Nat
  | [] => n
  | c :: r => decimalValue (n * 10 + (c.toNat - 48)) r

def isDigit (c : Char) : Bool :=
  '0' ≤ c && c ≤ '9'

/-- At least one digit and at most `most` of them. -/
def number (most : Nat) : Reader Nat := fun s =>
  match s with
  | [] => .error .tooShort
  | _ =>
    let ds := (s.take most).takeWhile isDigit
    if ds.isEmpty then .error .invalid else .ok (decimalValue 0 ds, s.drop ds.length)

def literal (c : Char) : Reader Unit := fun s =>
  match s with
  | [] => .error .tooShort
  | d :: r => if d = c then .ok ((), r) else .error .invalid

def require (ok : Bool) : Reader Unit :=
  if ok then pure () else throw .outOfRange

/-- A number of at most two digits between two bounds. -/
def field (low high : Nat) : Reader Nat := do
  blanks
  let n ← number 2
  require (low ≤ n && n ≤ high)
  return n

/-- Four digits, or a sign and any number of them. -/
def yearField : Reader Int := do
  blanks
  let s ← get
  let y : Int ←
    match s with
    | '-' :: r => do
      set r
      pure (-(← number r.length : Nat))
    | '+' :: r => do
      set r
      pure (← number r.length : Nat)
    | _ => do pure (← number 4 : Nat)
  require (-Int.pow 2 31 ≤ y && y < Int.pow 2 31)
  return y

def separator (c : Char) : Reader Unit := do
  blanks
  literal c

def dateTimeSeparator : Reader Unit := fun s =>
  match s with
  | [] => .error .tooShort
  | c :: r => if c = 'T' ∨ c = 't' ∨ c = ' ' then .ok ((), r) else .error .invalid

/-- Nine digits of a fraction count, further ones are passed over. -/
def fraction : Reader Nat := do
  match ← get with
  | '.' :: r =>
    set r
    let n ← number 9
    let rest ← get
    set (rest.dropWhile isDigit)
    return n * Nat.pow 10 (9 - (r.length - rest.length))
  | _ => return 0

/-- The next two characters, which must be digits. -/
def twoDigits : Reader (Nat × Nat) := fun s =>
  match s with
  | [] => .error .tooShort
  | [c] => .error (if c.utf8Size < 2 then .tooShort else .invalid)
  | c :: d :: r =>
    if isDigit c ∧ isDigit d then .ok ((c.toNat - 48, d.toNat - 48), r) else .error .invalid

def sign : Reader Bool := fun s =>
  match s with
  | [] => .error .tooShort
  | c :: r =>
    if c = '+' then .ok (false, r)
    else if c = '-' ∨ c = '−' then .ok (true, r)
    else .error .invalid

/-- The minutes by which local time is ahead of universal time. -/
def offset : Reader Int := do
  blanks
  let s ← get
  if (s.take 3).map Char.toUpper = ['U', 'T', 'C'] then
    set (s.drop 3)
    return 0
  match s with
  | 'Z' :: r | 'z' :: r =>
    set r
    return 0
  | _ =>
    let negative ← sign
    let (a, b) ← twoDigits
    modify fun r => r.dropWhile fun c => c == ':' || Text.isBlank c
    let (c, d) ← twoDigits
    require (c < 6)
    let minutes : Int := ((a * 10 + b) * 60 + (c * 10 + d) : Nat)
    return if negative then -minutes else minutes

def leastYear : Int := -262143

def greatestYear : Int := 262142

def reader : Reader Timestamp := do
  let year ← yearField
  separator '-'
  let month ← field 1 12
  separator '-'
  let day ← field 1 31
  dateTimeSeparator
  let hour ← field 0 23
  separator ':'
  let minute ← field 0 59
  separator ':'
  let second ← field 0 60
  let nano ← fraction
  let ahead ← offset
  blanks
  unless (← get).isEmpty do throw .tooLong
  require (leastYear ≤ year && year ≤ greatestYear && day ≤ daysIn year month)
  require (ahead.natAbs < 1440)
  let t := minusMinutes ⟨year, month, day, hour, minute, second, nano⟩ ahead
  unless leastYear ≤ t.year ∧ t.year ≤ greatestYear do throw .impossible
  return t

def parse (s : List Char) : Except ParseError Timestamp :=
  (reader s).map Prod.fst

def ofText (s : String) : Except ParseError Timestamp :=
  parse s.toList

end EventJournal.Timestamp
