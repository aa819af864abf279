/-!
Hexadecimal digits, written in lower case and read in either.
-/
namespace EventJournal.Text

def hexDigit (n : Nat) : Char :=
  if n < 10 then Char.ofNat (48 + n) else Char.ofNat (87 + n)

/-- `width` hexadecimal digits, the highest first. -/
def hexDigits : Nat → Nat → List Char
  | 0, _ => []
  | width + 1, n => hexDigit (n / Nat.pow 16 width % 16) :: hexDigits width n

@[simp] theorem length_hexDigits (width n : Nat) : (hexDigits width n).length = width := by
  induction width with
  | zero => rfl
  | succ k ih => simp [hexDigits, ih]

/-- The fewest hexadecimal digits that hold the number. -/
def hexWidth (n : Nat) : Nat :=
  n.log2 / 4 + 1

def hexValue? (c : Char) : Option Nat :=
  if '0' ≤ c ∧ c ≤ '9' then some (c.toNat - 48)
  else if 'a' ≤ c ∧ c ≤ 'f' then some (c.toNat - 87)
  else if 'A' ≤ c ∧ c ≤ 'F' then some (c.toNat - 55)
  else none

/-- The number that hexadecimal digits stand for, read behind `n`. -/
def hexNumber? (n : Nat) : List Char → Option Nat
  | [] => some n
  | c :: r => do hexNumber? (n * 16 + (← hexValue? c)) r

theorem hexValue?_hexDigit {n : Nat} (h : n < 16) : hexValue? (hexDigit n) = some n := by
  revert n
  decide

theorem hexNumber?_hexDigits (n width : Nat) (m : Nat) (h : n < Nat.pow 16 width) :
    hexNumber? m (hexDigits width n) = some (m * Nat.pow 16 width + n) := by
  suffices ∀ n : Nat, hexNumber? m (hexDigits width n) =
      some (m * Nat.pow 16 width + n % Nat.pow 16 width) by
    rw [this n, Nat.mod_eq_of_lt h]
  clear h n
  induction width generalizing m with
  | zero => intro n; simp [hexDigits, hexNumber?, Nat.pow, Nat.mod_one]
  | succ k ih =>
    intro n
    have hv := hexValue?_hexDigit (Nat.mod_lt (n / Nat.pow 16 k) (by decide : 0 < 16))
    simp only [hexDigits, hexNumber?, hv, Option.bind_eq_bind, Option.bind_some, ih]
    have hp : Nat.pow 16 (k + 1) = Nat.pow 16 k * 16 := rfl
    have hm : n % Nat.pow 16 (k + 1) =
        n % Nat.pow 16 k + Nat.pow 16 k * (n / Nat.pow 16 k % 16) := by
      rw [hp, Nat.mod_mul]
    rw [hm, hp]
    congr 1
    rw [Nat.add_mul, Nat.mul_assoc, Nat.mul_comm 16 (Nat.pow 16 k),
      Nat.mul_comm (n / Nat.pow 16 k % 16)]
    omega

end EventJournal.Text
