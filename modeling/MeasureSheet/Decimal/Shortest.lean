import MeasureSheet.Decimal.Rounding

/-! The shortest decimal of a binary number. Among the decimals that round to `mantissa * 2 ^
exponent` the one with the fewest digits is taken, and of those the nearest.

The decimals that round to a number fill an interval around it. A grid of multiples of a power of
ten that has a point in the interval also has one next to the number, so the search looks at the two
neighbours of the number on coarser grids first.
-/

namespace MeasureSheet.Decimal

/-- The decimal `coefficient * 10 ^ exponent`. -/
structure Digits where
  coefficient : Nat
  exponent : Int
deriving DecidableEq, Repr

/-- The multiple of `10 ^ place` next to `mantissa * 2 ^ exponent` that rounds to it, as the
multiplier, if there is one. Lengths are counted in quarters of the unit `2 ^ exponent`: the
interval reaches two quarters up and two down, or one down where the floats below lie closer, and
its ends belong to it when the mantissa is even.
-/
def neighbour (tie : Tie) (mantissa : Nat) (exponent place : Int) : Option Nat :=
  let quarter := Nat.pow 2 (exponent - 2).toNat * Nat.pow 10 (-place).toNat
  let step := Nat.pow 2 (2 - exponent).toNat * Nat.pow 10 place.toNat
  let below := if mantissa = Nat.pow 2 52 ∧ -1074 < exponent then 1 else 2
  let value := 4 * mantissa * quarter
  let low := (4 * mantissa - below) * quarter
  let high := (4 * mantissa + 2) * quarter
  let inside (n : Nat) : Bool :=
    if mantissa % 2 = 0 then low ≤ n * step && n * step ≤ high
    else low < n * step && n * step < high
  let floor := value / step
  match inside floor, inside (floor + 1) with
  | true, true => some (roundDiv tie value step)
  | true, false => some floor
  | false, true => some (floor + 1)
  | false, false => none

/-- Looks at the grids from `10 ^ place` down. -/
def seek (tie : Tie) (mantissa : Nat) (exponent : Int) : Nat → Int → Digits
  | 0, place => { coefficient := 0, exponent := place }
  | tries + 1, place =>
      match neighbour tie mantissa exponent place with
      | some coefficient => { coefficient, exponent := place }
      | none => seek tie mantissa exponent tries (place - 1)

/-- The shortest decimal that rounds to `mantissa * 2 ^ exponent`. The search starts above the
leading digit, as `30103 / 100000` exceeds the decimal logarithm of two, and ends within seventeen
digits, as a grid finer than the interval always has a point in it.
-/
def shortest (tie : Tie) (mantissa : Nat) (exponent : Int) : Digits :=
  let bits : Int := mantissa.log2 + 2 + exponent
  seek tie mantissa exponent 24 (bits * 30103 / 100000 + 1)

end MeasureSheet.Decimal
