import MeasureSheet.Proofs.Binary64.Arithmetic
import MeasureSheet.Proofs.Decimal.Shortest

/-! Rounding to the nearest float. Around each float lies the interval of the numbers that are
nearer to it than to any other, and a number in this interval is rounded to this float.
-/

namespace MeasureSheet.Binary64

open Float.Model (Format totalExponent UnpackedFloat)
open Float.Model.UnpackedFloat

variable {m : Nat} {e e' : Int} {x y : ℚ}

-- -----------------------------------------------------------------------------------------------
-- Intervals of floats

/-- The number lies in the interval of a float: the ends belong to it when its mantissa is even. -/
def InInterval (m : Nat) (e : Int) (x : ℚ) : Prop :=
  let low := (m - Decimal.quartersBelow m e / 4 : ℚ) * 2 ^ e
  let high := (m + 1 / 2 : ℚ) * 2 ^ e
  if m % 2 = 0 then low ≤ x ∧ x ≤ high else low < x ∧ x < high

/-- Between two exponents the scale is a power of two. -/
theorem scale_le_iff {c : ℚ} {k : Nat}
    : c * 2 ^ (e + k) ≤ y * 2 ^ e ↔ c * 2 ^ k ≤ y := by
  rw [zpow_add₀ (by norm_num), zpow_natCast, mul_comm (2 ^ e), ← mul_assoc,
    mul_le_mul_iff_of_pos_right (by positivity)]

namespace InInterval

theorem bounds (inside : InInterval m e x)
    : (m - Decimal.quartersBelow m e / 4 : ℚ) * 2 ^ e ≤ x ∧ x ≤ (m + 1 / 2) * 2 ^ e := by
  unfold InInterval at inside
  split at inside
  · exact inside
  · exact ⟨inside.1.le, inside.2.le⟩

/-- At most half a unit is missing below. -/
theorem half_le (inside : InInterval m e x) : (m - 1 / 2 : ℚ) * 2 ^ e ≤ x := by
  have below := Decimal.quartersBelow_mem m e
  have below : (Decimal.quartersBelow m e : ℚ) ≤ 2 := by exact_mod_cast below.2
  refine le_trans (mul_le_mul_of_nonneg_right ?_ (by positivity)) inside.bounds.1
  linarith

/-- The mantissa of a float is nearest to all numbers in its interval. -/
theorem isNearest (inside : InInterval m e (y * 2 ^ e)) : IsNearest m y := by
  have power : (0 : ℚ) < 2 ^ e := by positivity
  have below := Decimal.quartersBelow_mem m e
  have below : (Decimal.quartersBelow m e : ℚ) ≤ 2 := by exact_mod_cast below.2
  unfold InInterval at inside
  dsimp only at inside
  rw [mul_le_mul_iff_of_pos_right power, mul_le_mul_iff_of_pos_right power,
    mul_lt_mul_iff_of_pos_right power, mul_lt_mul_iff_of_pos_right power] at inside
  split at inside
  next even => exact ⟨abs_le.mpr ⟨by linarith, by linarith⟩, fun _ => even⟩
  next => exact .of_near (abs_lt.mpr ⟨by linarith, by linarith⟩)

/-- A number in an interval that is cut off lower lies just below a power of two. -/
theorem of_lower_exponent {k : Nat} (inside : InInterval m (e + (k + 1 : Nat)) (y * 2 ^ e))
    (full : 2 ^ 52 ≤ m) (least : -1074 ≤ e) (below : y < 2 ^ 53)
    : k = 0 ∧ m = 2 ^ 52 ∧ IsNearest (2 ^ 53) y := by
  have low : (m - 1 / 2 : ℚ) * 2 ^ (k + 1) ≤ y := scale_le_iff.mp inside.half_le
  have full' : (2 : ℚ) ^ 52 ≤ m := by exact_mod_cast full
  cases k with
  | zero =>
      have half : (m : ℚ) < 2 ^ 52 + 1 := by linarith
      have half : m < 2 ^ 52 + 1 := by exact_mod_cast half
      obtain rfl : m = 2 ^ 52 := by omega
      have quarter : Decimal.quartersBelow (2 ^ 52) (e + (0 + 1 : Nat)) = 1 :=
        if_pos ⟨rfl, by omega⟩
      have low := scale_le_iff.mp inside.bounds.1
      rw [quarter] at low
      push_cast at low
      refine ⟨rfl, rfl, ?_, fun _ => by decide⟩
      push_cast
      exact abs_le.mpr ⟨by linarith, by linarith⟩
  | succ k =>
      have power : (1 : ℚ) ≤ 2 ^ k := one_le_pow₀ (by norm_num)
      have beyond : (2 ^ 52 - 1 / 2) * 4 ≤ y :=
        calc (2 ^ 52 - 1 / 2 : ℚ) * 4
          _ ≤ (2 ^ 52 - 1 / 2) * (4 * 2 ^ k) :=
              mul_le_mul_of_nonneg_left (by linarith) (by norm_num)
          _ = (2 ^ 52 - 1 / 2) * 2 ^ (k + 1 + 1) := by ring
          _ ≤ (m - 1 / 2) * 2 ^ (k + 1 + 1) := by gcongr
          _ ≤ y := low
      linarith

/-- No number in an interval is cut off higher. -/
theorem not_higher_exponent {k : Nat} (inside : InInterval m e (y * 2 ^ (e + (k + 1 : Nat))))
    (small : m < 2 ^ 53) (full : 2 ^ 52 ≤ y)
    : False := by
  have small : (m : ℚ) + 1 ≤ 2 ^ 53 := by exact_mod_cast small
  have power : (1 : ℚ) ≤ 2 ^ k := one_le_pow₀ (by norm_num)
  have high : y * 2 ^ (k + 1) ≤ m + 1 / 2 := scale_le_iff.mp inside.bounds.2
  have beyond : (2 : ℚ) ^ 53 ≤ y * 2 ^ (k + 1) :=
    calc (2 : ℚ) ^ 53
      _ ≤ 2 ^ 53 * 2 ^ k := by linarith
      _ = 2 ^ 52 * 2 ^ (k + 1) := by ring
      _ ≤ y * 2 ^ (k + 1) := by gcongr
  linarith

/-- A number in an interval is cut off to its mantissa, or to what is rounded up to its form. -/
theorem cases_of_cutOff {q : ℚ} {floor : Nat} {t : Int} (inside : InInterval m e q)
    (canonical : Canonical m e) (cutOff : CutOff q floor t y)
    : t = e ∧ IsNearest m y ∨ t + 1 = e ∧ m = 2 ^ 52 ∧ IsNearest (2 ^ 53) y := by
  obtain ⟨rfl, canonical', above, below⟩ := cutOff
  have least := canonical.low
  have least' := canonical'.low
  rcases lt_trichotomy t e with lower | rfl | higher
  · right
    obtain ⟨k, rfl⟩ : ∃ k : Nat, e = t + (k + 1 : Nat) := ⟨(e - t - 1).toNat, by omega⟩
    have small : (floor : ℚ) + 1 ≤ 2 ^ 53 := by exact_mod_cast canonical'.small
    have full : 2 ^ 52 ≤ m := canonical.full.resolve_right (by omega)
    obtain ⟨rfl, same, nearest⟩ := inside.of_lower_exponent full least' (below.trans_le small)
    exact ⟨rfl, same, nearest⟩
  · exact Or.inl ⟨rfl, inside.isNearest⟩
  · obtain ⟨k, rfl⟩ : ∃ k : Nat, t = e + (k + 1 : Nat) := ⟨(t - e - 1).toNat, by omega⟩
    have full : (2 : ℚ) ^ 52 ≤ floor := by exact_mod_cast canonical'.full.resolve_right (by omega)
    exact (inside.not_higher_exponent canonical.small (full.trans above)).elim

end InInterval

-- -----------------------------------------------------------------------------------------------
-- Rounding of positive numbers

/-- The number is rounded with all that its bits tell, and with bits enough. -/
inductive IsRounded (u : UnpackedFloat) (q : ℚ) : Prop where
  | intro {m : Nat} {e : Int} {accuracy : Accuracy} {x : ℚ}
    (rounded : u = roundWithAccuracy .binary64 .positive m e accuracy)
    (halves : Halves (.ofMantissaAndAccuracy m accuracy) x)
    (fits : e ≤ Format.binary64.targetExponent (totalExponent m e))
    (value : q = x * 2 ^ e)

namespace IsRounded

variable {u : UnpackedFloat} {q : ℚ}

/-- A number is rounded to the float in whose interval it lies. -/
theorem eq_finite (rounded : IsRounded u q) (canonical : Canonical m e) (positive : 0 < m)
    (inside : InInterval m e q)
    : u = .finite .positive m e positive := by
  obtain ⟨rfl, halves, fits, rfl⟩ := rounded
  obtain ⟨floor, t, y, r, cutOff, nearest, form⟩ :=
    exists_nearest_roundWithAccuracy halves fits .positive
  generalize roundWithAccuracy _ _ _ _ _ = u at form
  rcases inside.cases_of_cutOff canonical cutOff with ⟨rfl, same⟩ | ⟨rfl, rfl, same⟩
  · obtain rfl := nearest.unique same
    cases form with
    | zero none => exact absurd none positive.ne'
    | finite => rfl
    | carry full => exact absurd full canonical.small.ne
  · obtain rfl := nearest.unique same
    cases form with
    | zero none => cases none
    | finite _ small => exact absurd small (lt_irrefl _)
    | carry => rfl

theorem div {m' : Nat} (positive : 0 < m) (positive' : 0 < m')
    : IsRounded
        (.div .binary64 (.finite .positive m e positive) (.finite .positive m' e' positive'))
        (m * 2 ^ e / (m' * 2 ^ e')) := by
  have lower : (divCore .binary64 m e m' e').2.1 ≤ e - e' := min_le_left _ _
  exact ⟨rfl, HasValue.halves_div _ positive', HasValue.fits_div positive positive' e e',
    HasValue.div_eq_shiftLeft_div lower⟩

theorem mul {m' : Nat} (canonical : Canonical m e) (canonical' : Canonical m' e')
    (positive : 0 < m) (positive' : 0 < m')
    : IsRounded
        (.mul .binary64 (.finite .positive m e positive) (.finite .positive m' e' positive'))
        (m * 2 ^ e * (m' * 2 ^ e')) := by
  refine ⟨rfl, halves_exact (m * m'),
    HasValue.fits_mul canonical canonical' positive positive', ?_⟩
  rw [zpow_add₀ (by norm_num)]
  push_cast
  ring

theorem ne_negativeZero (rounded : IsRounded u q) : u ≠ .zero .negative := by
  obtain ⟨rfl, halves, fits, -⟩ := rounded
  obtain ⟨_, _, _, _, -, -, form⟩ := exists_nearest_roundWithAccuracy halves fits .positive
  generalize roundWithAccuracy _ _ _ _ _ = u at form
  cases form <;> simp

end IsRounded

end MeasureSheet.Binary64
