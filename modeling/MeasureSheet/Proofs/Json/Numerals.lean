import Mathlib.Algebra.Group.Int.Defs
import Mathlib.Algebra.Group.Nat.Defs
import Mathlib.Data.List.Basic
import MeasureSheet.Json.Numeral
import MeasureSheet.Json.Value
import MeasureSheet.Proofs.Json.Quoting

/-! Numerals read back. A numeral of digits is split off any text that does not go on with it, and
the numeral of an integer of 64 bits has that integer as its value.
-/

namespace MeasureSheet.Json

-- -----------------------------------------------------------------------------------------------
-- Digits

/-- A text goes on with something other than a digit, or ends. -/
def NoDigit (rest : List Char) : Prop :=
  ∀ c ∈ rest.head?, c.isDigit = false

theorem takeWhile_digits {digits rest : List Char} (all : ∀ c ∈ digits, c.isDigit)
    (ends : NoDigit rest)
    : (digits ++ rest).takeWhile Char.isDigit = digits := by
  rw [List.takeWhile_append_of_pos all]
  cases rest with
  | nil => simp
  | cons c rest => simp [ends c rfl]

theorem dropWhile_digits {digits rest : List Char} (all : ∀ c ∈ digits, c.isDigit)
    (ends : NoDigit rest)
    : (digits ++ rest).dropWhile Char.isDigit = rest := by
  rw [List.dropWhile_append_of_pos all]
  cases rest with
  | nil => rfl
  | cons c rest => simp [ends c rfl]

/-- Digits in a row, at least one. -/
structure IsDigits (digits : List Char) : Prop where
  nonempty : digits ≠ []
  all : ∀ c ∈ digits, c.isDigit

theorem splitDigits_append {digits rest : List Char} (written : IsDigits digits)
    (ends : NoDigit rest)
    : splitDigits (digits ++ rest) = .ok (digits, rest) := by
  unfold splitDigits
  rw [takeWhile_digits written.all ends, dropWhile_digits written.all ends]
  cases digits with
  | nil => exact absurd rfl written.nonempty
  | cons c digits => rfl

-- -----------------------------------------------------------------------------------------------
-- Writing numerals

namespace Numeral

/-- The digits behind a point, if there is one. -/
def fractionChars : Option (List Char) → List Char
  | none => []
  | some digits => '.' :: digits

/-- An exponent with its sign, if there is one. -/
def exponentChars : Option (Bool × List Char) → List Char
  | none => []
  | some (negative, digits) => 'e' :: (if negative then '-' else '+') :: digits

/-- The text of a numeral. -/
def chars (n : Numeral) : List Char :=
  (if n.negative then ['-'] else []) ++ n.whole ++ fractionChars n.fraction
    ++ exponentChars n.exponent

/-- The parts of a numeral are digits, and several digits do not begin with a zero. -/
structure WellFormed (n : Numeral) : Prop where
  whole : IsDigits n.whole
  leading : n.whole.head? = some '0' → n.whole.length = 1
  fraction : ∀ digits ∈ n.fraction, IsDigits digits
  exponent : ∀ e ∈ n.exponent, IsDigits e.2

end Numeral

/-- What does not go on with a numeral before it. -/
def EndsNumeral (rest : List Char) : Prop :=
  ∀ c ∈ rest.head?, c.isDigit = false ∧ c ≠ '.' ∧ c ≠ 'e' ∧ c ≠ 'E'

-- -----------------------------------------------------------------------------------------------
-- Splitting written numerals

theorem splitExponent_append {exponent : Option (Bool × List Char)} {rest : List Char}
    (written : ∀ e ∈ exponent, IsDigits e.2) (ends : EndsNumeral rest)
    : splitExponent (Numeral.exponentChars exponent ++ rest) = .ok (exponent, rest) := by
  have noDigit : NoDigit rest := fun c head => (ends c head).1
  match exponent with
  | none =>
      cases rest with
      | nil => rfl
      | cons c rest =>
          obtain ⟨-, -, lower, upper⟩ := ends c rfl
          simp [Numeral.exponentChars, splitExponent, lower, upper]
  | some (negative, digits) =>
      have split := splitDigits_append (written _ rfl) noDigit
      cases negative <;>
        simp [Numeral.exponentChars, splitExponent, Decimal.splitSign, split]

theorem splitFraction_append {fraction : Option (List Char)} {rest : List Char}
    (written : ∀ digits ∈ fraction, IsDigits digits) (noDigit : NoDigit rest)
    (noPoint : ∀ c ∈ rest.head?, c ≠ '.')
    : splitFraction (Numeral.fractionChars fraction ++ rest) = .ok (fraction, rest) := by
  cases fraction with
  | none =>
      cases rest with
      | nil => rfl
      | cons c rest =>
          have other := noPoint c rfl
          unfold splitFraction
          split
          next same => exact absurd (List.cons.inj same).1 other
          next => rfl
  | some digits =>
      have split := splitDigits_append (written digits rfl) noDigit
      simp [Numeral.fractionChars, splitFraction, split]

theorem splitWhole_append {whole rest : List Char} (written : IsDigits whole)
    (leading : whole.head? = some '0' → whole.length = 1) (noDigit : NoDigit rest)
    : splitWhole (whole ++ rest) = .ok (whole, rest) := by
  rw [splitWhole, splitDigits_append written noDigit]
  exact if_neg fun h => h.2 (leading h.1)

/-- A sign is split off a text that does not begin with another. -/
theorem splitMinus_append {text : List Char} (unsigned : ∀ c ∈ text.head?, c ≠ '-')
    (negative : Bool)
    : splitMinus ((if negative then ['-'] else []) ++ text) = (negative, text) := by
  cases negative with
  | true => rfl
  | false =>
      simp only [Bool.false_eq_true, if_false, List.nil_append]
      unfold splitMinus
      split
      next => exact absurd rfl (unsigned '-' rfl)
      next => rfl

namespace Numeral

/-- An exponent begins with a letter, so digits before it end there. -/
theorem head?_exponentChars_append {exponent : Option (Bool × List Char)} {rest : List Char}
    (ends : EndsNumeral rest)
    : ∀ c ∈ (exponentChars exponent ++ rest).head?, c.isDigit = false ∧ c ≠ '.' := by
  intro c head
  match exponent with
  | none => exact ⟨(ends c head).1, (ends c head).2.1⟩
  | some (_, _) =>
      obtain rfl : 'e' = c := Option.some.inj head
      decide

/-- A fraction begins with a point, so digits before it end there. -/
theorem noDigit_fractionChars_append {fraction : Option (List Char)} {rest : List Char}
    (ends : NoDigit rest)
    : NoDigit (fractionChars fraction ++ rest) := by
  intro c head
  cases fraction with
  | none => exact ends c head
  | some _ =>
      obtain rfl : '.' = c := Option.some.inj head
      decide

/-- A well-formed numeral is split off every text that does not go on with it. -/
theorem split_chars {n : Numeral} (wellFormed : n.WellFormed) {rest : List Char}
    (ends : EndsNumeral rest)
    : Numeral.split (n.chars ++ rest) = .ok (n, rest) := by
  obtain ⟨negative, whole, fraction, exponent⟩ := n
  obtain ⟨written, leading, fractionWritten, exponentWritten⟩ := wellFormed
  dsimp only at written leading fractionWritten exponentWritten
  have behind := @head?_exponentChars_append exponent rest ends
  have noDigit : NoDigit (exponentChars exponent ++ rest) := fun c head => (behind c head).1
  have noPoint c head := (behind c head).2
  have unsigned
      : ∀ c ∈ (whole ++ (fractionChars fraction ++ (exponentChars exponent ++ rest))).head?,
          c ≠ '-' := by
    rw [List.head?_append_of_ne_nil _ written.nonempty]
    rintro c first rfl
    exact absurd (written.all '-' (List.mem_of_mem_head? first)) (by decide)
  have parts
      : (Numeral.mk negative whole fraction exponent).chars ++ rest
        = (if negative then ['-'] else [])
          ++ (whole ++ (fractionChars fraction ++ (exponentChars exponent ++ rest))) := by
    simp [chars]
  unfold Numeral.split
  rw [parts, splitMinus_append unsigned]
  simp only [splitWhole_append written leading (noDigit_fractionChars_append noDigit),
    splitFraction_append fractionWritten noDigit noPoint,
    splitExponent_append exponentWritten ends, bind, Except.bind, pure, Except.pure]

/-- Reading a number from a text that begins with a well-formed numeral reads that numeral. -/
theorem splitNumber_chars {n : Numeral} (wellFormed : n.WellFormed) {rest : List Char}
    (ends : EndsNumeral rest)
    : splitNumber (n.chars ++ rest) = ({ value := n.value, obstacle := none }, some rest) := by
  rw [splitNumber, split_chars wellFormed ends]

/-- A numeral begins with a minus or a digit. -/
theorem WellFormed.head?_chars {n : Numeral} (wellFormed : n.WellFormed)
    : ∃ c rest, n.chars = c :: rest ∧ (c = '-' ∨ c.isDigit) := by
  obtain ⟨negative, whole, fraction, exponent⟩ := n
  obtain ⟨written, -, -, -⟩ := wellFormed
  dsimp only at written
  unfold chars
  cases negative with
  | true => exact ⟨_, _, rfl, Or.inl rfl⟩
  | false =>
      cases whole with
      | nil => exact absurd rfl written.nonempty
      | cons c whole => exact ⟨_, _, rfl, Or.inr (written.all c List.mem_cons_self)⟩

end Numeral

-- -----------------------------------------------------------------------------------------------
-- Integers

theorem isDigits_toDigits (n : Nat) : IsDigits (Nat.toDigits 10 n) where
  nonempty := Nat.toDigits_ne_nil
  all _ member := Nat.isDigit_of_mem_toDigits (by decide) (by decide) member

/-- Only zero is written with a leading zero, by induction along the digits. -/
theorem head?_toDigits_ne_zero {n : Nat} (positive : 0 < n)
    : (Nat.toDigits 10 n).head? ≠ some '0' := by
  induction n using Nat.strongRecOn with
  | ind n ih =>
      rw [Nat.toDigits_eq_if (by decide)]
      split
      next small =>
        intro zero
        have same : n.digitChar = '0' := by simpa using zero
        rw [Nat.digitChar_eq_zero] at same
        omega
      next large =>
        rw [List.head?_append_of_ne_nil _ Nat.toDigits_ne_nil]
        exact ih (n / 10) (by omega) (by omega)

theorem leading_toDigits {n : Nat} (zero : (Nat.toDigits 10 n).head? = some '0')
    : (Nat.toDigits 10 n).length = 1 := by
  rcases Nat.eq_zero_or_pos n with rfl | positive
  · rfl
  · exact absurd zero (head?_toDigits_ne_zero positive)

/-- Digits are gathered into the number that they write while it fits. -/
theorem gather_eq {start : Nat} {digits : List Char}
    (fits : Nat.ofDigitChars 10 digits start < UInt64.size)
    : gather start digits = (Nat.ofDigitChars 10 digits start, []) := by
  induction digits generalizing start with
  | nil => rfl
  | cons c digits ih =>
      have step : Nat.ofDigitChars 10 (c :: digits) start
          = Nat.ofDigitChars 10 digits (10 * start + (c.toNat - '0'.toNat)) := rfl
      rw [step] at fits ⊢
      have grows : 10 * start + (c.toNat - '0'.toNat) < UInt64.size := by
        rw [Nat.ofDigitChars_eq_ofDigitChars_zero] at fits
        have more : 10 * start + (c.toNat - '0'.toNat)
            ≤ 10 ^ digits.length * (10 * start + (c.toNat - '0'.toNat)) :=
          Nat.le_mul_of_pos_left _ (Nat.pow_pos (by decide))
        omega
      unfold gather
      simp only [grows, if_true]
      exact ih fits

/-- The numeral of an integer. -/
def Numeral.ofInt (i : Int) : Numeral where
  negative := i < 0
  whole := Nat.toDigits 10 i.natAbs
  fraction := none
  exponent := none

namespace Numeral

theorem wellFormed_ofInt (i : Int) : (ofInt i).WellFormed where
  whole := isDigits_toDigits i.natAbs
  leading := leading_toDigits
  fraction _ absent := absurd absent (Option.not_mem_none _)
  exponent _ absent := absurd absent (Option.not_mem_none _)

theorem integerChars_eq (i : Int) : Value.integerChars i = (ofInt i).chars := by
  by_cases negative : i < 0 <;>
    simp [Value.integerChars, chars, ofInt, fractionChars, exponentChars, negative]

/-- An integer that 64 bits hold is the value of its numeral. -/
theorem value_ofInt {i : Int} (low : -2 ^ 63 ≤ i) (high : i < 2 ^ 64)
    : (ofInt i).value = .ok (.integer i) := by
  have fits : i.natAbs < UInt64.size := by
    simp only [UInt64.size]
    omega
  have gathered : gather 0 (Nat.toDigits 10 i.natAbs) = (i.natAbs, []) := by
    have written : Nat.ofDigitChars 10 (Nat.toDigits 10 i.natAbs) 0 = i.natAbs :=
      Nat.ofDigitChars_toDigits (by decide) (by decide)
    rw [gather_eq (by rwa [written]), written]
  have whole : (ofInt i).integer? = some i := by
    unfold integer? ofInt
    rw [gathered]
    by_cases negative : i < 0
    · have room : 0 < i.natAbs ∧ i.natAbs ≤ Nat.pow 2 63 := by
        constructor
        · omega
        · change i.natAbs ≤ 2 ^ 63
          omega
      simp only [negative, decide_true, Bool.not_true, Bool.false_eq_true, if_false, if_pos room,
        Option.some.injEq]
      omega
    · simp only [negative, decide_false, Bool.not_false, if_true, Option.some.injEq]
      omega
  rw [value, whole]

end Numeral

end MeasureSheet.Json
