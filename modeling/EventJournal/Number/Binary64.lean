/-!
Numbers in the sixty-four bit binary format. A finite number is a mantissa times a power of two;
rounding takes an exact quotient to the nearest number, a tie to the even mantissa.
-/
namespace EventJournal

structure Binary64 where
  bits : UInt64
  deriving DecidableEq, Repr

namespace Binary64

def negative (x : Binary64) : Bool :=
  Nat.pow 2 63 ≤ x.bits.toNat

/-- The bits without the sign. They order the magnitudes. -/
def magnitude (x : Binary64) : Nat :=
  x.bits.toNat % Nat.pow 2 63

def ofMagnitude (negative : Bool) (n : Nat) : Binary64 :=
  ⟨UInt64.ofNat (n % Nat.pow 2 63 + if negative then Nat.pow 2 63 else 0)⟩

/-- The magnitude of infinity, the first that is not a number. -/
def infinity : Nat :=
  2047 * Nat.pow 2 52

/-- The mantissa; the number is the mantissa times `2 ^ scale`. -/
def mantissa (x : Binary64) : Nat :=
  if x.magnitude < Nat.pow 2 52 then x.magnitude else x.magnitude % Nat.pow 2 52 + Nat.pow 2 52

def scale (x : Binary64) : Int :=
  if x.magnitude < Nat.pow 2 52 then -1074 else (x.magnitude / Nat.pow 2 52 : Nat) - 1075

def numerator (x : Binary64) : Nat :=
  x.mantissa * Nat.pow 2 x.scale.toNat

def denominator (x : Binary64) : Nat :=
  Nat.pow 2 (-x.scale).toNat

/-- The quotient to the nearest whole number, a tie to the even one. -/
def roundDiv (num den : Nat) : Nat :=
  let q := num / den
  let r := num % den
  if 2 * r < den then q
  else if den < 2 * r then q + 1
  else q + q % 2

/-- The greatest `e` with `2 ^ e ≤ num / den`, for positive numbers. -/
def floorLog2 (num den : Nat) : Int :=
  let k : Int := (num.log2 : Int) - (den.log2 : Int)
  if den * Nat.pow 2 k.toNat ≤ num * Nat.pow 2 (-k).toNat then k else k - 1

/-- The magnitude of the number nearest to a quotient, which may be that of infinity. A mantissa that
rounds up to the next power of two carries into the exponent by itself. -/
def nearestMagnitude (num den : Nat) : Nat :=
  if num = 0 then 0
  else
    let scale := max (floorLog2 num den - 52) (-1074)
    let m := roundDiv (num * Nat.pow 2 (-scale).toNat) (den * Nat.pow 2 scale.toNat)
    (scale + 1074).toNat * Nat.pow 2 52 + m

/-- The nearest finite number, if the quotient does not round to infinity. -/
def nearest? (negative : Bool) (num den : Nat) : Option Binary64 :=
  let n := nearestMagnitude num den
  if n < infinity then some (ofMagnitude negative n) else none

def zero (negative : Bool) : Binary64 :=
  ofMagnitude negative 0

/-- The number nearest to `10 ^ n`, for `n` up to 308. -/
def tenPow (n : Nat) : Binary64 :=
  ofMagnitude false (nearestMagnitude (Nat.pow 10 n) 1)

def mul? (x y : Binary64) : Option Binary64 :=
  nearest? (x.negative != y.negative) (x.numerator * y.numerator) (x.denominator * y.denominator)

/-- The quotient by a positive number. -/
def div? (x y : Binary64) : Option Binary64 :=
  nearest? (x.negative != y.negative) (x.numerator * y.denominator) (x.denominator * y.numerator)

def abs (x : Binary64) : Binary64 :=
  ofMagnitude false x.magnitude

def neg (x : Binary64) : Binary64 :=
  ofMagnitude (!x.negative) x.magnitude

/-- A decimal `significand * 10 ^ exponent` by one rounded multiplication or division with a power of
ten; below `10 ^ -308` it is divided by that power first. -/
def ofDecimal? (negative : Bool) (significand : Nat) (exponent : Int) : Option Binary64 := do
  let s ← nearest? negative significand 1
  if 0 ≤ exponent then
    if exponent ≤ 308 then mul? s (tenPow exponent.toNat)
    else if significand = 0 then some s
    else none
  else lower s (-exponent).toNat (-exponent).toNat
where
  lower (s : Binary64) (power : Nat) : Nat → Option Binary64
    | 0 => some s
    | fuel + 1 =>
      if power ≤ 308 then div? s (tenPow power)
      else if s.magnitude = 0 then some s
      else do
        let t ← div? s (tenPow 308)
        lower t (power - 308) fuel

end Binary64

end EventJournal
