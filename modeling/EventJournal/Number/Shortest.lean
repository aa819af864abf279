import EventJournal.Number.Binary64

/-!
The shortest decimal that reads back as a given number, and its text.
-/
namespace EventJournal.Binary64

/-- The greatest `e` near `guess` with `10 ^ e ≤ num / den`. -/
def floorLog10 (num den : Nat) (guess : Int) : Nat → Int
  | 0 => guess
  | fuel + 1 =>
    if num * Nat.pow 10 (-guess).toNat < den * Nat.pow 10 guess.toNat then
      floorLog10 num den (guess - 1) fuel
    else if den * Nat.pow 10 (guess + 1).toNat ≤ num * Nat.pow 10 (-(guess + 1)).toNat then
      floorLog10 num den (guess + 1) fuel
    else guess

/-- A decimal: whole digits times a power of ten. -/
structure Decimal where
  digits : Nat
  exponent : Int
  deriving DecidableEq, Repr

/-- The reals that round to a number, as numerators over one denominator. The ends belong to it when
the mantissa is even. -/
structure Interval where
  low : Nat
  value : Nat
  high : Nat
  den : Nat
  closed : Bool

def interval (x : Binary64) : Interval :=
  let unit := Nat.pow 2 x.scale.toNat
  let value := 4 * x.numerator
  let below := if x.mantissa = Nat.pow 2 52 ∧ -1074 < x.scale then unit else 2 * unit
  ⟨value - below, value, value + 2 * unit, 4 * x.denominator, x.mantissa % 2 == 0⟩

/-- Whether `d * 10 ^ exponent` lies in the interval. -/
def Interval.holds (i : Interval) (d : Decimal) : Bool :=
  let n := d.digits * Nat.pow 10 d.exponent.toNat * i.den
  let up := Nat.pow 10 (-d.exponent).toNat
  if i.closed then i.low * up ≤ n && n ≤ i.high * up else i.low * up < n && n < i.high * up

/-- The neighbour of the value on the grid of multiples of `10 ^ exponent` that reads back. Of two the
nearer wins, and a tie goes to the even digit. -/
def Interval.onGrid? (i : Interval) (exponent : Int) : Option Decimal :=
  let up := Nat.pow 10 (-exponent).toNat
  let step := Nat.pow 10 exponent.toNat * i.den
  let d := i.value * up / step
  let r := i.value * up % step
  let lower : Decimal := ⟨d, exponent⟩
  let upper : Decimal := ⟨d + 1, exponent⟩
  match i.holds lower, i.holds upper with
  | false, false => none
  | true, false => some lower
  | false, true => some upper
  | true, true =>
    if 2 * r < step then some lower
    else if step < 2 * r then some upper
    else some (if d % 2 = 0 then lower else upper)

/-- Tries grids from coarse to fine, starting at `exponent`. -/
def Interval.shortestFrom (i : Interval) (exponent : Int) : Nat → Decimal
  | 0 => ⟨0, 0⟩
  | fuel + 1 => (i.onGrid? exponent).getD (i.shortestFrom (exponent - 1) fuel)

/-- For a number other than zero. -/
def shortest (x : Binary64) : Decimal :=
  let guess := (floorLog2 x.numerator x.denominator * 30103).fdiv 100000
  x.interval.shortestFrom (floorLog10 x.numerator x.denominator guess 4) 18

/-- How the text of a number looks: the exponents written without a power of ten. -/
structure Style where
  leastFixed : Int
  greatestFixed : Int

/-- A power of ten is written out from `1e-5` to `1e15`; other exponents take a sign and no more digits
than they need. -/
def style : Style := ⟨-5, 15⟩

def Decimal.text (d : Decimal) : String :=
  let ds := (Nat.repr d.digits).toList
  let ds := (ds.reverse.dropWhile (· == '0')).reverse
  let e : Int := (Nat.repr d.digits).length - 1 + d.exponent
  if style.leastFixed ≤ e ∧ e ≤ style.greatestFixed then
    if e < 0 then
      String.ofList (['0', '.'] ++ List.replicate (-e - 1).toNat '0' ++ ds)
    else
      let whole := ds.take (e.toNat + 1)
      let part := ds.drop (e.toNat + 1)
      String.ofList (whole ++ List.replicate (e.toNat + 1 - whole.length) '0' ++ ['.'] ++
        if part.isEmpty then ['0'] else part)
  else
    let part := ds.drop 1
    let sign := if e < 0 then "e-" else "e+"
    String.ofList (ds.take 1 ++ if part.isEmpty then [] else '.' :: part) ++ sign ++
      Nat.repr e.natAbs

/-- The text of a finite number. A whole number keeps one zero behind the point. -/
def text (x : Binary64) : String :=
  let sign := if x.negative then "-" else ""
  sign ++ if x.magnitude = 0 then "0.0" else x.shortest.text

end EventJournal.Binary64
