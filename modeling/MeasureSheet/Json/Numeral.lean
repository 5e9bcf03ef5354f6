import MeasureSheet.Decimal.Reading
import MeasureSheet.Json.Fault

/-! Numbers in JSON texts. A numeral without point and exponent is an integer if it fits 64 bits;
every other is a float, computed in floating-point arithmetic from its leading digits and its
exponent. The result is not always the float nearest to the numeral.
-/

namespace MeasureSheet.Json

inductive Number where
  | integer (i : Int)
  | float (x : Float)
deriving DecidableEq

/-- The parts of a numeral, as digits. -/
structure Numeral where
  negative : Bool
  whole : List Char
  /-- The digits after the point, if there is one. -/
  fraction : Option (List Char)
  /-- Whether the exponent is negative, and its digits, if there is one. -/
  exponent : Option (Bool × List Char)
deriving DecidableEq

-- -----------------------------------------------------------------------------------------------
-- Splitting a text

/-- The digits that a text begins with, at least one, and what follows them. -/
def splitDigits (cs : List Char) : Except Fault (List Char × List Char) :=
  match cs.takeWhile Char.isDigit, cs.dropWhile Char.isDigit with
  | [], [] => .error .endOfText
  | [], _ :: _ => .error .malformed
  | digits, rest => .ok (digits, rest)

/-- Several digits do not begin with a zero. -/
def splitWhole (cs : List Char) : Except Fault (List Char × List Char) :=
  match splitDigits cs with
  | .error fault => .error fault
  | .ok (digits, rest) =>
      if digits.head? = some '0' ∧ digits.length ≠ 1 then .error .malformed else .ok (digits, rest)

def splitFraction : List Char → Except Fault (Option (List Char) × List Char)
  | '.' :: cs =>
      match splitDigits cs with
      | .error fault => .error fault
      | .ok (digits, rest) => .ok (some digits, rest)
  | cs => .ok (none, cs)

def splitExponent : List Char → Except Fault (Option (Bool × List Char) × List Char)
  | c :: cs =>
      if c = 'e' ∨ c = 'E' then
        let (negative, cs) := Decimal.splitSign cs
        match splitDigits cs with
        | .error fault => .error fault
        | .ok (digits, rest) => .ok (some (negative, digits), rest)
      else .ok (none, c :: cs)
  | [] => .ok (none, [])

def splitMinus : List Char → Bool × List Char
  | '-' :: cs => (true, cs)
  | cs => (false, cs)

/-- The numeral that a text begins with, and what follows it. -/
def Numeral.split (cs : List Char) : Except Fault (Numeral × List Char) := do
  let (negative, cs) := splitMinus cs
  let (whole, cs) ← splitWhole cs
  let (fraction, cs) ← splitFraction cs
  let (exponent, cs) ← splitExponent cs
  return ({ negative, whole, fraction, exponent }, cs)

-- -----------------------------------------------------------------------------------------------
-- Values

/-- Appends digits to a number as long as it fits 64 bits. The result comes with the digits that are
left once one does not fit.
-/
def gather : Nat → List Char → Nat × List Char
  | n, [] => (n, [])
  | n, c :: cs =>
      let longer := 10 * n + (c.toNat - '0'.toNat)
      if longer < UInt64.size then gather longer cs else (n, c :: cs)

/-- A float within range. -/
def inRange (x : Float) : Except Fault Float :=
  if x.isInf then .error .malformed else .ok x

/-- `x * 10 ^ exponent`, in one multiplication or division when the power of ten is a float, and
after repeated divisions when it is too small for one. The first argument bounds the divisions.
-/
def scale : Nat → Float → Int → Except Fault Float
  | 0, x, _ => .ok x
  | bound + 1, x, exponent =>
      if exponent.natAbs ≤ 308 then
        let power := Decimal.nearest 1 exponent.natAbs
        if 0 ≤ exponent then inRange (x * power) else .ok (x / power)
      else if x == 0.0 then .ok x
      else if 0 ≤ exponent then .error .malformed
      else scale bound (x / Decimal.nearest 1 308) (exponent + 308)

namespace Numeral

/-- The written exponent. -/
def exponentValue (n : Numeral) : Int :=
  match n.exponent with
  | none => 0
  | some (negative, digits) =>
      if negative then -(Decimal.ofDigits digits : Int) else Decimal.ofDigits digits

/-- The value as a float. Whole digits that do not fit count by their number; digits after the point
are left out from the first that does not fit.
-/
def floatValue (n : Numeral) : Except Fault Float := do
  let (head, dropped) := gather 0 n.whole
  let fraction := n.fraction.getD []
  let (significand, ignored) := gather head fraction
  let exponent := n.exponentValue + dropped.length - (fraction.length - ignored.length : Nat)
  let magnitude ← scale (exponent.natAbs / 308 + 1) significand.toUInt64.toFloat exponent
  return if n.negative then -magnitude else magnitude

/-- The value as an integer, for a numeral that has one. Minus zero is a float. -/
def integer? (n : Numeral) : Option Int :=
  match n.fraction, n.exponent, gather 0 n.whole with
  | none, none, (i, []) =>
      if !n.negative then some i
      else if 0 < i ∧ i ≤ Nat.pow 2 63 then some (-i)
      else none
  | _, _, _ => none

def value (n : Numeral) : Except Fault Number :=
  match n.integer? with
  | some i => .ok (.integer i)
  | none => n.floatValue.map .float

end Numeral

/-- The number that a text begins with, and what follows it, if the numeral is complete. -/
def splitNumber (cs : List Char) : Token Number × Option (List Char) :=
  match Numeral.split cs with
  | .error fault => ({ value := .error fault, obstacle := some .malformed }, none)
  | .ok (numeral, rest) => ({ value := numeral.value, obstacle := none }, some rest)

end MeasureSheet.Json
