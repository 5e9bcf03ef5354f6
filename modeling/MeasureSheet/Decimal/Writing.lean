import MeasureSheet.Decimal.Shortest

/-! Decimal texts of floats: the shortest digits, laid out with or without an exponent, and a fixed
number of places.
-/

namespace MeasureSheet.Decimal

open Float.Model (UnpackedFloat)

-- -----------------------------------------------------------------------------------------------
-- Layouts

/-- How the shortest digits of a float are laid out. -/
structure Style where
  /-- Which of two equally near decimals is written. -/
  tie : Tie
  /-- Whether a number with this exponent of its leading digit is written without an exponent. -/
  isPositional : Int → Bool
  /-- What follows a whole number that is written without an exponent. -/
  wholeMark : List Char

/-- Messages: never an exponent, and no point after a whole number. -/
def Style.message : Style where
  tie := .up
  isPositional _ := true
  wholeMark := []

/-- Data files: an exponent for very large and very small numbers, and always a point otherwise. -/
def Style.data : Style where
  tie := .toEven
  isPositional leading := -5 ≤ leading && leading ≤ 15
  wholeMark := ['.', '0']

def signChars : UnpackedFloat.Sign → List Char
  | .positive => []
  | .negative => ['-']

/-- Digits around a point, which stands after `whole` of them. -/
def pointed (wholeMark digits : List Char) (whole : Int) : List Char :=
  if digits.length ≤ whole then
    digits ++ List.replicate (whole - digits.length).toNat '0' ++ wholeMark
  else if 0 < whole then
    digits.take whole.toNat ++ '.' :: digits.drop whole.toNat
  else
    '0' :: '.' :: List.replicate (-whole).toNat '0' ++ digits

/-- One digit before the point and an exponent with its sign. -/
def scientific (digits : List Char) (leading : Int) : List Char :=
  let fraction := digits.drop 1
  digits.take 1
    ++ (if fraction.isEmpty then [] else '.' :: fraction)
    ++ 'e' :: (if leading < 0 then '-' else '+') :: Nat.toDigits 10 leading.natAbs

def Digits.chars (style : Style) (number : Digits) : List Char :=
  let digits := Nat.toDigits 10 number.coefficient
  let whole := digits.length + number.exponent
  if style.isPositional (whole - 1) then pointed style.wholeMark digits whole
  else scientific digits (whole - 1)

-- -----------------------------------------------------------------------------------------------
-- Floats

/-- A float in its shortest digits. -/
def chars (style : Style) (x : Float) : List Char :=
  match x.toModel.unpack with
  | .notANumber => ['N', 'a', 'N']
  | .infinity sign => signChars sign ++ ['i', 'n', 'f']
  | .zero sign => signChars sign ++ '0' :: style.wholeMark
  | .finite sign mantissa exponent _ =>
      signChars sign ++ (shortest style.tie mantissa exponent).chars style

/-- The shortest text of a float in a message. -/
def text (x : Float) : String :=
  String.ofList (chars .message x)

/-- The whole number of units `10 ^ -places` in `mantissa * 2 ^ exponent`, ties to even. -/
def scaled (places mantissa : Nat) (exponent : Int) : Nat :=
  roundDiv .toEven (mantissa * Nat.pow 10 places * Nat.pow 2 exponent.toNat)
    (Nat.pow 2 (-exponent).toNat)

/-- A whole number of units `10 ^ -places`, written with all its places. -/
def fixedChars (places units : Nat) : List Char :=
  let digits := Nat.toDigits 10 units
  let padded := List.replicate (places + 1 - digits.length) '0' ++ digits
  let whole := padded.length - places
  padded.take whole ++ (if places = 0 then [] else '.' :: padded.drop whole)

/-- A float rounded to a fixed number of decimal places, exactly. -/
def fixed (places : Nat) (x : Float) : String :=
  String.ofList <|
    match x.toModel.unpack with
    | .notANumber => ['N', 'a', 'N']
    | .infinity sign => signChars sign ++ ['i', 'n', 'f']
    | .zero sign => signChars sign ++ fixedChars places 0
    | .finite sign mantissa exponent _ =>
        signChars sign ++ fixedChars places (scaled places mantissa exponent)

end MeasureSheet.Decimal
