import Mathlib
import MeasureSheet.Proofs.Binary64.Canonical

/-! Packing of floats into bits. A canonical form is what the bits that it is packed into stand for,
unless its exponent is too large.
-/

namespace MeasureSheet.Binary64

open Float.Model (Format)
open Float.Model.UnpackedFloat

/-- The leading bit of a full mantissa is left out and put back. -/
theorem unpack_packComponents_full {sign : Sign} {m exponent : Nat} (full : 2 ^ 52 ≤ m)
    (small : m < 2 ^ 53) (notLeast : 0 < exponent) (notLast : exponent < 2047)
    : unpack .binary64 (packComponents .binary64 sign (.ofNat 11 exponent) (.ofNat 52 m))
      = .finite sign m (exponent - 1075) (by omega) := by
  have power : (BitVec.ofNat 11 exponent).toNat = exponent := by
    rw [BitVec.toNat_ofNat]
    omega
  have mantissa : (1#1 ++ BitVec.ofNat 52 m).toNat = m := by
    rw [BitVec.toNat_append, BitVec.toNat_ofNat, Nat.shiftLeft_eq, Nat.or_comm]
    change m % 2 ^ 52 ||| 1 * 2 ^ 52 = m
    rw [Nat.one_mul, Nat.or_two_pow_eq_add_of_lt (Nat.mod_lt m (by decide))]
    omega
  have notAllOnes : BitVec.ofNat 11 exponent ≠ -1#11 := by
    intro last
    have last := power.symm.trans (congrArg BitVec.toNat last)
    change exponent = 2047 at last
    omega
  have notZero : BitVec.ofNat 11 exponent ≠ 0#11 := by
    intro least
    have least := power.symm.trans (congrArg BitVec.toNat least)
    change exponent = 0 at least
    omega
  simp only [unpack, unpackExponent_packComponents, unpackMantissa_packComponents,
    unpackSign_packComponents, Sign.ofBitVec_toBitVec, power, mantissa]
  rw [if_neg notAllOnes, if_neg notZero]
  rfl

/-- With the least exponent the mantissa is held as it is. -/
theorem unpack_packComponents_least {sign : Sign} {m : Nat} (positive : 0 < m) (less : m < 2 ^ 52)
    : unpack .binary64 (packComponents .binary64 sign 0#11 (.ofNat 52 m))
      = .finite sign m (-1074) positive := by
  have mantissa : (BitVec.ofNat 52 m).toNat = m := by
    rw [BitVec.toNat_ofNat]
    omega
  have notZero : BitVec.ofNat 52 m ≠ 0#52 := by
    intro zero
    have zero := mantissa.symm.trans (congrArg BitVec.toNat zero)
    change m = 0 at zero
    omega
  simp only [unpack, unpackExponent_packComponents, unpackMantissa_packComponents,
    unpackSign_packComponents, Sign.ofBitVec_toBitVec, mantissa]
  rw [if_neg (by decide), if_pos trivial, dif_neg notZero]
  rfl

/-- Canonical forms are what they are packed from, by cases on whether the mantissa is full. -/
theorem unpack_pack_finite {sign : Sign} {m : Nat} {e : Int} (canonical : Canonical m e)
    (high : e ≤ 971) (positive : 0 < m)
    : (Float.Model.pack (.finite sign m e positive)).unpack = .finite sign m e positive := by
  obtain ⟨small, low, full⟩ := canonical
  have biased : (e + (1023 : Nat) + (52 : Nat)).toNat = (e + 1075).toNat := by omega
  simp only [Float.Model.unpack, Float.Model.pack, pack, exponentBias_eq, biased]
  rw [if_neg (by omega)]
  split
  next length =>
    have length : m.log2 = 52 := Nat.succ.inj length
    have notLess : 2 ^ 52 ≤ m := length ▸ Nat.log2_self_le (Nat.ne_of_gt positive)
    have exponent : ((e + 1075).toNat : Int) - 1075 = e := by omega
    refine (unpack_packComponents_full notLess small (by omega) (by omega)).trans ?_
    simp only [exponent]
  next length =>
    have less : m < 2 ^ 52 := by
      apply Nat.lt_of_not_le
      intro notLess
      have bits := (Nat.log2_eq_iff (Nat.ne_of_gt positive)).mpr ⟨notLess, small⟩
      exact length (congrArg Nat.succ bits)
    obtain rfl : e = -1074 := full.resolve_left (Nat.not_le_of_lt less)
    exact unpack_packComponents_least positive less

theorem unpack_pack_overflow {sign : Sign} {m : Nat} {e : Int} (high : 971 < e) (positive : 0 < m)
    : (Float.Model.pack (.finite sign m e positive)).unpack = .infinity sign := by
  have tooLarge : 2 ^ 11 ≤ (e + (1023 : Nat) + (52 : Nat)).toNat + 1 := by omega
  have packed : pack .binary64 (.finite sign m e positive) = packedInfinity .binary64 sign :=
    if_pos tooLarge
  calc (Float.Model.pack (.finite sign m e positive)).unpack
    _ = unpack .binary64 (packedInfinity .binary64 sign) := congrArg (unpack .binary64) packed
    _ = .infinity sign := by cases sign <;> rfl

end MeasureSheet.Binary64
