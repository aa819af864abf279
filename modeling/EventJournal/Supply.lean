import EventJournal.Event

/-!
A clock of milliseconds that also hands out fresh identifiers.
-/
namespace EventJournal

namespace Timestamp

/-- The day that many days after the first of March of the year 0. -/
def ofDayNumber (days : Nat) : Timestamp :=
  let era := days / 146097
  let dayOfEra := days % 146097
  let yearOfEra :=
    (dayOfEra - dayOfEra / 1460 + dayOfEra / 36524 - dayOfEra / 146096) / 365
  let dayOfYear := dayOfEra - (365 * yearOfEra + yearOfEra / 4 - yearOfEra / 100)
  let monthFromMarch := (5 * dayOfYear + 2) / 153
  let day := dayOfYear - (153 * monthFromMarch + 2) / 5 + 1
  let month := if monthFromMarch < 10 then monthFromMarch + 3 else monthFromMarch - 9
  let year := yearOfEra + era * 400 + (if month ≤ 2 then 1 else 0)
  ⟨year, month, day, 0, 0, 0, 0⟩

/-- The time that many milliseconds after the start of 1970. -/
def ofUnixMillis (millis : Nat) : Timestamp :=
  let seconds := millis / 1000
  let rest := seconds % 86400
  { ofDayNumber (seconds / 86400 + 719468) with
    hour := rest / 3600
    minute := rest / 60 % 60
    second := rest % 60
    nano := millis % 1000 * 1000000 }

end Timestamp

structure Supply where
  /-- Milliseconds since the start of 1970. -/
  millis : Nat
  /-- How many identifiers have been drawn. -/
  drawn : Nat
  deriving Repr

namespace Supply

def now (s : Supply) : Timestamp :=
  .ofUnixMillis s.millis

/-- A time-ordered identifier that was not drawn before, and the time. -/
def draw (s : Supply) : Stamp × Supply :=
  (⟨.timeOrdered s.millis s.drawn, s.now⟩, { s with drawn := s.drawn + 1 })

/-- Lets time pass. -/
def wait (s : Supply) (millis : Nat) : Supply :=
  { s with millis := s.millis + millis }

end Supply

end EventJournal
