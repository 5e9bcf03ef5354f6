import MeasureSheet.Proofs.Binary64.Signs
import MeasureSheet.Record

/-! Rounding of values. A value is scaled, rounded to the nearest whole number and scaled back; of
these steps only the first can make a finite value infinite.
-/

namespace MeasureSheet

open Binary64

namespace Decimal

-- -----------------------------------------------------------------------------------------------
-- Nearest whole numbers

/-- No whole number is nearer to the value, and of two that are equally near this one is further
from zero.
-/
structure IsNearestWhole (n : ℤ) (v : ℚ) : Prop where
  near : |v - n| ≤ 1 / 2
  away : |v - n| = 1 / 2 → |v| < |(n : ℚ)|

namespace IsNearestWhole

variable {n n' : ℤ} {v : ℚ}

theorem refl (n : ℤ) : IsNearestWhole n n where
  near := by norm_num
  away := by norm_num

theorem neg (nearest : IsNearestWhole n v) : IsNearestWhole (-n) (-v) := by
  have distance : |-v - (-n : ℤ)| = |v - n| := by
    rw [Int.cast_neg, neg_sub_neg, abs_sub_comm]
  refine ⟨distance ▸ nearest.near, fun tie => ?_⟩
  rw [Int.cast_neg, abs_neg, abs_neg]
  exact nearest.away (distance ▸ tie)

/-- Of two such numbers the value would lie halfway between, and one of them is nearer to zero. -/
theorem le (nearest : IsNearestWhole n v) (nearest' : IsNearestWhole n' v) : n ≤ n' := by
  by_contra greater
  have next : (n' : ℚ) + 1 ≤ n := by exact_mod_cast Int.not_le.mp greater
  obtain ⟨low, -⟩ := abs_le.mp nearest.near
  obtain ⟨-, high⟩ := abs_le.mp nearest'.near
  have below : v - n = -(1 / 2) := by linarith
  have above : v - n' = 1 / 2 := by linarith
  have away := nearest.away (by rw [below, abs_neg, abs_of_pos one_half_pos])
  have away' := nearest'.away (by rw [above, abs_of_pos one_half_pos])
  rcases le_or_gt 0 n' with nonneg | negative
  · have nonneg : (0 : ℚ) ≤ n' := by exact_mod_cast nonneg
    rw [abs_of_nonneg (by linarith), abs_of_nonneg nonneg] at away'
    linarith
  · have negative : (n' : ℚ) + 1 ≤ 0 := by exact_mod_cast negative
    rw [abs_of_nonpos (by linarith), abs_of_nonpos (by linarith)] at away
    linarith

theorem unique (nearest : IsNearestWhole n v) (nearest' : IsNearestWhole n' v) : n = n' :=
  Int.le_antisymm (nearest.le nearest') (nearest'.le nearest)

end IsNearestWhole

/-- A quotient is never half a unit above what it is rounded to when ties go up. -/
theorem lt_roundDiv_up (num : Nat) {den : Nat} (positive : 0 < den)
    : 2 * num < 2 * (roundDiv .up num den * den) + den := by
  have whole : num / den * den + num % den = num := Nat.div_add_mod' num den
  have rest := Nat.mod_lt num positive
  unfold roundDiv
  dsimp only
  split_ifs
  · omega
  · rw [Nat.add_mul]
    omega
  · rw [Nat.add_mul]
    omega

theorem isNearestWhole_roundDiv (num : Nat) {den : Nat} (positive : 0 < den)
    : IsNearestWhole (roundDiv .up num den) (num / den) := by
  have size : (0 : ℚ) < den := by exact_mod_cast positive
  have below : (2 * (roundDiv .up num den * den) : ℚ) ≤ 2 * num + den := by
    exact_mod_cast (roundDiv_near .up num positive).1
  have above : (2 * num : ℚ) < 2 * (roundDiv .up num den * den) + den := by
    exact_mod_cast lt_roundDiv_up num positive
  have scaled : (num / den : ℚ) * den = num := div_mul_cancel₀ _ size.ne'
  have low : -(1 / 2 : ℚ) ≤ num / den - roundDiv .up num den := by
    refine le_of_mul_le_mul_right ?_ size
    linarith
  have high : (num / den - roundDiv .up num den : ℚ) < 1 / 2 := by
    refine lt_of_mul_lt_mul_right ?_ size.le
    linarith
  rw [← Int.cast_natCast] at low high
  refine ⟨abs_le.mpr ⟨low, high.le⟩, fun tie => ?_⟩
  have half := (abs_eq one_half_pos.le).mp tie
  have half := half.resolve_left high.ne
  rw [abs_of_nonneg (by positivity), Int.cast_natCast, abs_of_nonneg (by positivity)]
  rw [Int.cast_natCast] at half
  linarith

theorem roundDiv_lt (tie : Tie) {num den : Nat} (small : num < 2 ^ 53) (least : 2 ≤ den)
    : roundDiv tie num den < 2 ^ 53 := by
  have near := (roundDiv_near tie num (by omega : 0 < den)).1
  by_contra notLess
  have large := Nat.mul_le_mul_right den (Nat.le_of_not_lt notLess)
  omega

-- -----------------------------------------------------------------------------------------------
-- Whole floats

/-- One float is another one rounded to a whole number. The sign is kept when this is zero, and what
denotes no number is kept as it is.
-/
inductive RoundsToWhole (x : Float) : Float → Prop where
  | nearest {y : Float} {v : ℚ} {n : ℤ} (value : Denotes x v) (whole : Denotes y n)
    (nearest : IsNearestWhole n v) (signs : Unsigned x ↔ Unsigned y)
    : RoundsToWhole x y
  | valueless (infinite : x.isFinite = false) : RoundsToWhole x x

namespace RoundsToWhole

variable {x y y' : Float}

theorem isFinite (rounds : RoundsToWhole x y) : y.isFinite = x.isFinite := by
  cases rounds with
  | nearest value whole => rw [isFinite_iff.mpr ⟨_, value⟩, isFinite_iff.mpr ⟨_, whole⟩]
  | valueless => rfl

/-- A float that denotes a number is rounded to a float of one number and one sign. -/
theorem unique (rounds : RoundsToWhole x y) (rounds' : RoundsToWhole x y') : y = y' := by
  cases rounds with
  | nearest value whole nearest signs =>
      have finite := isFinite_iff.mpr ⟨_, value⟩
      cases rounds' with
      | nearest value' whole' nearest' signs' =>
          obtain rfl := value.unique value'
          obtain rfl := nearest.unique nearest'
          exact whole.eq_of_sign whole' (signs.symm.trans signs')
      | valueless infinite => simp [finite] at infinite
  | valueless infinite =>
      cases rounds' with
      | nearest value' => simp [isFinite_iff.mpr ⟨_, value'⟩] at infinite
      | valueless => rfl

end RoundsToWhole

/-- Floats with a fraction are less than the whole numbers that have no exact floats. -/
theorem isNearestWhole_fraction {m : Nat} {e : Int} (small : m < 2 ^ 53) (negative : e < 0)
    : roundDiv .up m (2 ^ (-e).toNat) < 2 ^ 53
      ∧ IsNearestWhole (roundDiv .up m (2 ^ (-e).toNat)) (m * 2 ^ e) := by
  have fraction : 2 ≤ 2 ^ (-e).toNat := Nat.le_self_pow (by omega) 2
  have power : (m : ℚ) * 2 ^ e = m / (2 ^ (-e).toNat : Nat) := by
    rw [Nat.cast_pow, Nat.cast_ofNat, ← zpow_natCast, Int.toNat_of_nonneg (by omega), zpow_neg,
      div_inv_eq_mul]
  rw [power]
  exact ⟨roundDiv_lt .up small fraction, isNearestWhole_roundDiv m (by omega)⟩

/-- A mantissa with a fraction is rounded as a natural number, and then gets its sign. -/
theorem roundsToWhole_roundFloat (x : Float) : RoundsToWhole x (roundFloat x) := by
  unfold roundFloat
  split
  next sign m e positive unpacked =>
    have value := denotes_of_unpack unpacked
    split
    next whole =>
      have integer : withSign sign (m * 2 ^ e) = (sign.apply (m * 2 ^ e.toNat) : ℤ) := by
        rw [cast_apply, Int.cast_mul, Int.cast_pow, ← zpow_natCast, Int.toNat_of_nonneg whole]
        rfl
      rw [integer] at value
      exact .nearest value value (.refl _) Iff.rfl
    next fraction =>
      have canonical := (canonical_of_unpack unpacked).1
      obtain ⟨small, nearest⟩ := isNearestWhole_fraction canonical.small (Int.not_le.mp fraction)
      have magnitude := denotes_ofNat small
      have unsigned := unsigned_ofNat small
      have signs := Unsigned.iff_of_finite unpacked
      cases sign with
      | positive =>
          exact .nearest value (by exact_mod_cast magnitude) nearest
            (iff_of_true (signs.mpr rfl) unsigned)
      | negative =>
          exact .nearest value (by exact_mod_cast magnitude.neg) nearest.neg
            (iff_of_false (by simp [signs]) unsigned.not_neg)
  next unfinished =>
    by_cases finite : x.isFinite
    · obtain ⟨v, value⟩ := isFinite_iff.mp finite
      rcases HasValue.zero_or_finite value with ⟨-, -, rfl⟩ | ⟨sign, m, e, positive, unpacked, -⟩
      · have value : Denotes x (0 : ℤ) := by exact_mod_cast value
        exact .nearest value value (.refl 0) Iff.rfl
      · exact absurd unpacked (unfinished sign m e positive)
    · exact .valueless (Bool.eq_false_of_not_eq_true finite)

end Decimal

-- -----------------------------------------------------------------------------------------------
-- Decimal places

namespace Record

/-- One value is another one rounded to decimal places, of which fifteen count: it is scaled by
their power of ten, rounded to a whole number and divided by the power again.
-/
def IsRounding (places : Nat) (x y : Float) : Prop :=
  ∃ power whole,
    Denotes power (10 ^ min places 15 : Nat)
    ∧ Decimal.RoundsToWhole (x * power) whole
    ∧ whole / power = y

theorem denotes_scale (places : Nat) : Denotes (scale places) (10 ^ min places 15 : Nat) := by
  apply denotes_ofNat
  calc 10 ^ min places 15
    _ ≤ 10 ^ 15 := Nat.pow_le_pow_right (by decide) (min_le_right places 15)
    _ < 2 ^ 53 := by decide

/-- There is one rounding of a value, which is the rounded value. -/
theorem isRounding_iff {places : Nat} {x y : Float}
    : IsRounding places x y ↔ roundValue places x = y := by
  have scaled := denotes_scale places
  constructor
  · rintro ⟨power, whole, value, rounds, rfl⟩
    have positive : (0 : ℚ) < (10 ^ min places 15 : Nat) := by positivity
    obtain rfl := scaled.eq_of_sign value
      (iff_of_true (.of_pos scaled positive) (.of_pos value positive))
    rw [roundValue, (Decimal.roundsToWhole_roundFloat _).unique rounds]
  · rintro rfl
    exact ⟨scale places, _, scaled, Decimal.roundsToWhole_roundFloat _, rfl⟩

/-- A value is lost in rounding when it is lost in scaling, and not otherwise. -/
theorem isFinite_roundValue (places : Nat) (x : Float)
    : (roundValue places x).isFinite = (x * scale places).isFinite := by
  have least : (1 : ℚ) ≤ (10 ^ min places 15 : Nat) := by
    exact_mod_cast Nat.one_le_pow _ 10 (by decide)
  calc (Decimal.roundFloat (x * scale places) / scale places).isFinite
    _ = (Decimal.roundFloat (x * scale places)).isFinite :=
        (denotes_scale places).isFinite_div _ least
    _ = (x * scale places).isFinite := (Decimal.roundsToWhole_roundFloat _).isFinite

end Record

end MeasureSheet
