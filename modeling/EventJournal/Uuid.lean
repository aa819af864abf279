import EventJournal.Text.Hex

/-!
Universally unique identifiers: 128-bit numbers, written as 32 hexadecimal digits in five groups.
-/
namespace EventJournal

structure Uuid where
  number : Fin (Nat.pow 2 128)
  deriving DecidableEq, Repr

namespace Uuid

def ofNat (n : Nat) : Uuid :=
  ⟨⟨n % Nat.pow 2 128, Nat.mod_lt _ (by decide)⟩⟩

def nil : Uuid :=
  ofNat 0

/-- The order of the sixteen bytes, which is that of the numbers. -/
def precedes (x y : Uuid) : Bool :=
  x.number.val ≤ y.number.val

def version (x : Uuid) : Nat :=
  x.number.val / Nat.pow 2 76 % 16

/-- The time-ordered form: 48 bits of milliseconds, then a counter around the version and variant
marks. -/
def timeOrdered (millis counter : Nat) : Uuid :=
  ofNat ((millis % Nat.pow 2 48) * Nat.pow 2 80 + 7 * Nat.pow 2 76 +
    (counter / Nat.pow 2 62 % Nat.pow 2 12) * Nat.pow 2 64 + 2 * Nat.pow 2 62 +
    counter % Nat.pow 2 62)

/-- The places of the hyphens in the written form. -/
def hyphens : List Nat :=
  [8, 13, 18, 23]

def chars (x : Uuid) : List Char :=
  let n := x.number.val
  Text.hexDigits 8 (n / Nat.pow 2 96) ++ '-' :: Text.hexDigits 4 (n / Nat.pow 2 80) ++
    '-' :: Text.hexDigits 4 (n / Nat.pow 2 64) ++ '-' :: Text.hexDigits 4 (n / Nat.pow 2 48) ++
    '-' :: Text.hexDigits 12 n

@[simp] theorem length_chars (x : Uuid) : x.chars.length = 36 := by
  simp [chars]

def text (x : Uuid) : String :=
  String.ofList x.chars

end Uuid

end EventJournal
