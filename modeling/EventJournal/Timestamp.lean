/-!
Points in time as calendar fields in universal time, and their written form.
-/
namespace EventJournal

/-- A leap second is second 60 of its minute. -/
structure Timestamp where
  year : Int
  month : Nat
  day : Nat
  hour : Nat
  minute : Nat
  second : Nat
  nano : Nat
  deriving DecidableEq, Repr

namespace Timestamp

def isLeap (year : Int) : Bool :=
  year % 4 == 0 && (year % 100 != 0 || year % 400 == 0)

def daysIn (year : Int) (month : Nat) : Nat :=
  if month = 2 then (if isLeap year then 29 else 28)
  else if month = 4 ∨ month = 6 ∨ month = 9 ∨ month = 11 then 30
  else 31

/-- The fields name a day of the calendar and a time of that day. -/
structure Valid (t : Timestamp) : Prop where
  month_pos : 1 ≤ t.month
  month_le : t.month ≤ 12
  day_pos : 1 ≤ t.day
  day_le : t.day ≤ daysIn t.year t.month
  hour_lt : t.hour < 24
  minute_lt : t.minute < 60
  second_le : t.second ≤ 60
  nano_lt : t.nano < Nat.pow 10 9

/-- The day before, at the same time of day. -/
def dayBefore (t : Timestamp) : Timestamp :=
  if 1 < t.day then { t with day := t.day - 1 }
  else if 1 < t.month then { t with month := t.month - 1, day := daysIn t.year (t.month - 1) }
  else { t with year := t.year - 1, month := 12, day := 31 }

def dayAfter (t : Timestamp) : Timestamp :=
  if t.day < daysIn t.year t.month then { t with day := t.day + 1 }
  else if t.month < 12 then { t with month := t.month + 1, day := 1 }
  else { t with year := t.year + 1, month := 1, day := 1 }

/-- The same instant in universal time, for a local time that many minutes ahead of it. Offsets stay
below a day. -/
def minusMinutes (t : Timestamp) (offset : Int) : Timestamp :=
  let minutes := (t.hour * 60 + t.minute : Int) - offset
  let day := if minutes < 0 then t.dayBefore else if 1440 ≤ minutes then t.dayAfter else t
  let rest := (minutes % 1440).toNat
  { day with hour := rest / 60, minute := rest % 60 }

def digit (n : Nat) : Char :=
  Char.ofNat (48 + n % 10)

/-- `width` decimal digits, the highest first. -/
def digits : Nat → Nat → List Char
  | 0, _ => []
  | width + 1, n => digit (n / Nat.pow 10 width) :: digits width n

@[simp] theorem length_digits (width n : Nat) : (digits width n).length = width := by
  induction width with
  | zero => rfl
  | succ k ih => simp [digits, ih]

/-- Years of four digits stand bare, all others with a sign. -/
def yearChars (year : Int) : List Char :=
  if 0 ≤ year ∧ year ≤ 9999 then digits 4 year.toNat
  else
    let n := (Nat.repr year.natAbs).toList
    (if year < 0 then '-' else '+') :: (List.replicate (4 - n.length) '0' ++ n)

/-- No fraction, or one of three, six or nine digits, the fewest that lose nothing. -/
def fractionChars (nano : Nat) : List Char :=
  if nano = 0 then []
  else if nano % 1000000 = 0 then '.' :: digits 3 (nano / 1000000)
  else if nano % 1000 = 0 then '.' :: digits 6 (nano / 1000)
  else '.' :: digits 9 nano

def chars (t : Timestamp) : List Char :=
  yearChars t.year ++ '-' :: digits 2 t.month ++ '-' :: digits 2 t.day ++ 'T' :: digits 2 t.hour ++
    ':' :: digits 2 t.minute ++ ':' :: digits 2 t.second ++ fractionChars t.nano ++ ['Z']

def text (t : Timestamp) : String :=
  String.ofList t.chars

end Timestamp

end EventJournal
