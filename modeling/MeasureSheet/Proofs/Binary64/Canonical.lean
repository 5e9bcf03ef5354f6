import Mathlib.Algebra.Group.Nat.Defs

/-! Canonical forms of finite floats: the mantissa and the exponent that the bits of a float stand
for.
-/

namespace MeasureSheet.Binary64

open Float.Model (Format)
open Float.Model.UnpackedFloat

/-- Mantissa and exponent as bits hold them: a mantissa is full unless its exponent is the least. -/
structure Canonical (mantissa : Nat) (exponent : Int) : Prop where
  small : mantissa < 2 ^ 53
  low : -1074 ≤ exponent
  full : 2 ^ 52 ≤ mantissa ∨ exponent = -1074

theorem exponentBias_eq : Format.binary64.exponentBias = 1023 :=
  rfl

/-- Whatever its bits are, a finite float has a canonical form. -/
theorem canonical_of_unpack {x : Float.Model} {sign : Sign} {m : Nat} {e : Int} {positive : 0 < m}
    (unpacked : x.unpack = .finite sign m e positive)
    : Canonical m e ∧ e ≤ 971 := by
  delta Float.Model.unpack unpack at unpacked
  dsimp only at unpacked
  have bias := exponentBias_eq
  generalize x.toBits.toBitVec = bits at unpacked
  have power : (@unpackExponent .binary64 bits).toNat < 2048 := BitVec.isLt _
  have fraction : (@unpackMantissa .binary64 bits).toNat < 2 ^ 52 :=
    BitVec.isLt (@unpackMantissa .binary64 bits)
  by_cases last : @unpackExponent .binary64 bits = -1#11
  · rw [if_pos last] at unpacked
    by_cases zero : @unpackMantissa .binary64 bits = 0#52
    · rw [if_pos zero] at unpacked
      cases unpacked
    · rw [if_neg zero] at unpacked
      cases unpacked
  rw [if_neg last] at unpacked
  have notLast : (@unpackExponent .binary64 bits).toNat ≠ 2047 :=
    fun same => last (BitVec.eq_of_toNat_eq same)
  by_cases least : @unpackExponent .binary64 bits = 0#11
  · rw [if_pos least] at unpacked
    have least : (@unpackExponent .binary64 bits).toNat = 0 := congrArg BitVec.toNat least
    by_cases zero : @unpackMantissa .binary64 bits = 0#52
    · rw [dif_pos zero] at unpacked
      cases unpacked
    · rw [dif_neg zero] at unpacked
      cases unpacked
      exact ⟨⟨by omega, by omega, Or.inr (by omega)⟩, by omega⟩
  · rw [if_neg least] at unpacked
    have notLeast : (@unpackExponent .binary64 bits).toNat ≠ 0 :=
      fun same => least (BitVec.eq_of_toNat_eq same)
    cases unpacked
    have leading : (1#1 ++ @unpackMantissa .binary64 bits).toNat < 2 ^ 53 := BitVec.isLt _
    have full : 2 ^ 52 ≤ (1#1 ++ @unpackMantissa .binary64 bits).toNat := by
      rw [BitVec.toNat_append]
      exact Nat.left_le_or
    exact ⟨⟨by omega, by omega, Or.inl full⟩, by omega⟩

end MeasureSheet.Binary64
