import MeasureSheet.Proofs.Binary64.Canonical
import MeasureSheet.Proofs.Decimal.Shortest
import MeasureSheet.Proofs.Json.Numerals

/-! The texts of floats. Every finite float is written as a well-formed numeral, whichever layout
its size calls for.
-/

namespace MeasureSheet.Json

open Decimal (Digits Style pointed scientific shortest signChars)
open Float.Model (UnpackedFloat)

-- -----------------------------------------------------------------------------------------------
-- Layouts

/-- A text is that of a well-formed numeral without a sign. -/
def IsUnsigned (cs : List Char) : Prop :=
  ∃ n : Numeral, n.negative = false ∧ n.WellFormed ∧ n.chars = cs

theorem IsDigits.append_zeros {digits : List Char} (written : IsDigits digits) (count : Nat)
    : IsDigits (digits ++ List.replicate count '0') where
  nonempty h := written.nonempty (List.append_eq_nil_iff.mp h).1
  all c member := by
    rcases List.mem_append.mp member with member | member
    · exact written.all c member
    · rw [List.eq_of_mem_replicate member]
      decide

theorem IsDigits.zeros_append {digits : List Char} (written : IsDigits digits) (count : Nat)
    : IsDigits (List.replicate count '0' ++ digits) where
  nonempty h := written.nonempty (List.append_eq_nil_iff.mp h).2
  all c member := by
    rcases List.mem_append.mp member with member | member
    · rw [List.eq_of_mem_replicate member]
      decide
    · exact written.all c member

theorem IsDigits.take {digits : List Char} (written : IsDigits digits) {count : Nat}
    (some : 0 < count)
    : IsDigits (digits.take count) where
  nonempty h := by
    rcases List.take_eq_nil_iff.mp h with zero | empty
    · omega
    · exact written.nonempty empty
  all c member := written.all c (List.mem_of_mem_take member)

theorem IsDigits.drop {digits : List Char} (written : IsDigits digits) {count : Nat}
    (more : count < digits.length)
    : IsDigits (digits.drop count) where
  nonempty h := by
    have short := List.drop_eq_nil_iff.mp h
    omega
  all c member := written.all c (List.mem_of_mem_drop member)

theorem isDigits_zero : IsDigits ['0'] :=
  isDigits_toDigits 0

/-- Digits that do not begin with a zero, with a point among or around them. -/
theorem isUnsigned_pointed {digits : List Char} (written : IsDigits digits)
    (leading : digits.head? ≠ some '0') (whole : Int)
    : IsUnsigned (pointed ['.', '0'] digits whole) := by
  have head?_append (rest : List Char) : (digits ++ rest).head? ≠ some '0' := by
    rwa [List.head?_append_of_ne_nil _ written.nonempty]
  unfold pointed
  split
  · refine ⟨⟨false, digits ++ List.replicate (whole - digits.length).toNat '0', some ['0'], none⟩,
      rfl, ?_, by simp [Numeral.chars, Numeral.fractionChars, Numeral.exponentChars]⟩
    exact {
      whole := written.append_zeros _
      leading := fun zero => absurd zero (head?_append _)
      fraction := by simpa using isDigits_zero
      exponent := by simp
    }
  split
  next short inside =>
    refine ⟨⟨false, digits.take whole.toNat, some (digits.drop whole.toNat), none⟩,
      rfl, ?_, by simp [Numeral.chars, Numeral.fractionChars, Numeral.exponentChars]⟩
    exact {
      whole := written.take (by omega)
      leading := fun zero => absurd zero (by rwa [List.head?_take, if_neg (by omega)])
      fraction := by simpa using written.drop (by omega)
      exponent := by simp
    }
  next =>
    refine ⟨⟨false, ['0'], some (List.replicate (-whole).toNat '0' ++ digits), none⟩,
      rfl, ?_, by simp [Numeral.chars, Numeral.fractionChars, Numeral.exponentChars]⟩
    exact {
      whole := isDigits_zero
      leading := fun _ => rfl
      fraction := by simpa using written.zeros_append _
      exponent := by simp
    }

/-- Digits with the point behind the first, unless it is alone, and an exponent. -/
theorem isUnsigned_scientific {digits : List Char} (written : IsDigits digits) (leading : Int)
    : IsUnsigned (scientific digits leading) := by
  have exponent : IsDigits (Nat.toDigits 10 leading.natAbs) := isDigits_toDigits _
  match digits with
  | [] => exact absurd rfl written.nonempty
  | [digit] =>
      refine ⟨⟨false, [digit], none, some (leading < 0, Nat.toDigits 10 leading.natAbs)⟩, rfl, ?_,
        by simp [scientific, Numeral.chars, Numeral.fractionChars, Numeral.exponentChars]⟩
      exact {
        whole := written
        leading := fun _ => rfl
        fraction := by simp
        exponent := by simpa using exponent
      }
  | digit :: next :: digits =>
      refine ⟨⟨false, [digit], some (next :: digits),
        some (leading < 0, Nat.toDigits 10 leading.natAbs)⟩, rfl, ?_,
        by simp [scientific, Numeral.chars, Numeral.fractionChars, Numeral.exponentChars]⟩
      exact {
        whole := written.take Nat.one_pos
        leading := fun _ => rfl
        fraction := by simpa using written.drop (show 1 < (digit :: next :: digits).length by simp)
        exponent := by simpa using exponent
      }

/-- A positive decimal is written as a numeral. -/
theorem isUnsigned_digits {number : Digits} (positive : 0 < number.coefficient)
    : IsUnsigned (number.chars .data) := by
  have written := isDigits_toDigits number.coefficient
  unfold Digits.chars
  dsimp only
  split
  · exact isUnsigned_pointed written (head?_toDigits_ne_zero positive) _
  · exact isUnsigned_scientific written _

/-- Zero is written as a numeral. -/
theorem isUnsigned_zero : IsUnsigned ['0', '.', '0'] := by
  refine ⟨⟨false, ['0'], some ['0'], none⟩, rfl, ?_, rfl⟩
  exact {
    whole := isDigits_zero
    leading := fun _ => rfl
    fraction := by simpa using isDigits_zero
    exponent := by simp
  }

theorem IsUnsigned.exists_signed {cs : List Char} (unsigned : IsUnsigned cs)
    (sign : UnpackedFloat.Sign)
    : ∃ n : Numeral, n.WellFormed ∧ n.chars = signChars sign ++ cs := by
  obtain ⟨⟨negative, whole, fraction, exponent⟩, positive, wellFormed, rfl⟩ := unsigned
  obtain rfl : negative = false := positive
  cases sign with
  | positive => exact ⟨_, wellFormed, rfl⟩
  | negative =>
      exact ⟨⟨true, whole, fraction, exponent⟩, ⟨wellFormed.1, wellFormed.2, wellFormed.3,
        wellFormed.4⟩, rfl⟩

-- -----------------------------------------------------------------------------------------------
-- Floats

/-- Mantissa and exponent of a float. -/
theorem unpack_bounds {x : Float} {sign : UnpackedFloat.Sign} {mantissa : Nat} {exponent : Int}
    {positive : 0 < mantissa}
    (unpacked : x.toModel.unpack = .finite sign mantissa exponent positive)
    : mantissa < 2 ^ 53 ∧ -1074 ≤ exponent ∧ exponent ≤ 971 :=
  have ⟨canonical, high⟩ := Binary64.canonical_of_unpack unpacked
  ⟨canonical.small, canonical.low, high⟩

/-- Every finite float is written as a well-formed numeral. -/
theorem exists_numeral_of_isFinite {x : Float} (finite : x.isFinite)
    : ∃ n : Numeral, n.WellFormed ∧ n.chars = Value.floatChars x := by
  rw [Value.floatChars, if_pos finite]
  unfold Decimal.chars
  have finite : x.toModel.unpack.isFinite := finite
  cases unpacked : x.toModel.unpack with
  | notANumber =>
      rw [unpacked] at finite
      cases finite
  | infinity sign =>
      rw [unpacked] at finite
      cases finite
  | zero sign => exact isUnsigned_zero.exists_signed sign
  | finite sign mantissa exponent positive =>
      obtain ⟨small, low, high⟩ := unpack_bounds unpacked
      have written := Decimal.shortest_coefficient_pos .toEven positive small low high
      exact (isUnsigned_digits written).exists_signed sign

/-- What is written for an infinity or NaN is no numeral. -/
theorem isFinite_iff_exists_numeral {x : Float}
    : x.isFinite ↔ ∃ n : Numeral, n.WellFormed ∧ n.chars = Value.floatChars x := by
  refine ⟨exists_numeral_of_isFinite, ?_⟩
  rintro ⟨n, wellFormed, written⟩
  by_contra infinite
  obtain ⟨c, rest, first, kind⟩ := wellFormed.head?_chars
  rw [first, Value.floatChars, if_neg infinite] at written
  obtain ⟨rfl, -⟩ := List.cons.inj written
  revert kind
  decide

end MeasureSheet.Json
