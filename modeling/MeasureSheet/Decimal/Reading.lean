/-! Reading decimal numerals. The value of a numeral is the float nearest to the number that it
writes, which is infinite when the number is too large.
-/

namespace MeasureSheet.Decimal

/-- The number that a list of decimal digits writes. -/
def ofDigits (cs : List Char) : Nat :=
  cs.foldl (fun n c => 10 * n + (c.toNat - '0'.toNat)) 0

/-- The float nearest to `coefficient * 10 ^ exponent`. -/
def nearest (coefficient : Nat) (exponent : Int) : Float :=
  Float.ofScientific coefficient (exponent < 0) exponent.natAbs

-- -----------------------------------------------------------------------------------------------
-- Plain numerals

/-- ASCII digits with at most one point among them, and at least one digit. -/
def isPlain (cs : List Char) : Bool :=
  cs.all (fun c => c.isDigit || c == '.') && cs.count '.' ≤ 1 && cs.any Char.isDigit

/-- The value of a plain numeral. -/
def plainValue (cs : List Char) : Float :=
  let whole := cs.takeWhile (· ≠ '.')
  let fraction := (cs.dropWhile (· ≠ '.')).drop 1
  nearest (ofDigits (whole ++ fraction)) (-fraction.length)

-- -----------------------------------------------------------------------------------------------
-- Float texts

/-- An optional sign, as whether it is a minus, and what follows it. -/
def splitSign : List Char → Bool × List Char
  | '-' :: cs => (true, cs)
  | '+' :: cs => (false, cs)
  | cs => (false, cs)

/-- The exponent that ends a numeral: nothing, or an `e` with an optional sign and digits. -/
def exponent? : List Char → Option Int
  | [] => some 0
  | c :: cs =>
      let (negative, digits) := splitSign cs
      if c.toLower = 'e' ∧ digits ≠ [] ∧ digits.all Char.isDigit then
        some (if negative then -(ofDigits digits : Int) else ofDigits digits)
      else none

/-- An unsigned float text: a plain numeral with an optional exponent, or the name of a value. -/
def unsigned? (cs : List Char) : Option Float :=
  let name := String.ofList (cs.map Char.toLower)
  if name = "nan" then some (0.0 / 0.0)
  else if name = "inf" ∨ name = "infinity" then some (1.0 / 0.0)
  else
    let numeral := cs.takeWhile fun c => c.isDigit || c == '.'
    let fraction := (numeral.dropWhile (· ≠ '.')).drop 1
    match exponent? (cs.drop numeral.length) with
    | some exponent =>
        if isPlain numeral then
          some (nearest (ofDigits (numeral.filter Char.isDigit)) (exponent - fraction.length))
        else none
    | none => none

/-- The value of a float text. -/
def float? (text : String) : Option Float :=
  let (negative, cs) := splitSign text.toList
  if negative then (unsigned? cs).map (- ·) else unsigned? cs

end MeasureSheet.Decimal
