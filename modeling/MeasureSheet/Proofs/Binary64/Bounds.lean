import MeasureSheet.Proofs.Binary64.Arithmetic

/-! Bounds of floats. Sizes are counted in powers of two, which rounding never crosses, so the size
of a result follows from those of the operands as in exact arithmetic.
-/

namespace MeasureSheet.Binary64

open Float.Model (UnpackedFloat)

variable {x y : Float} {v w : ℚ} {j k : Nat}

-- -----------------------------------------------------------------------------------------------
-- Powers of two

theorem representable_two_pow (k : Nat) : Representable (2 ^ k) := by
  refine ⟨1, k, by decide, by omega, ?_⟩
  rw [abs_of_pos (by positivity), zpow_natCast, Nat.cast_one, one_mul]

theorem two_pow_le_greatest (small : k ≤ 1023) : (2 : ℚ) ^ k ≤ greatest := by
  have canonical : Canonical (2 ^ 52) 971 := ⟨by decide, by decide, Or.inl le_rfl⟩
  calc (2 : ℚ) ^ k
    _ ≤ 2 ^ 1023 := pow_le_pow_right₀ (by norm_num) small
    _ = (2 ^ 52 : Nat) * 2 ^ (971 : Int) := by
        rw [Nat.cast_pow, Nat.cast_ofNat, ← zpow_natCast, ← zpow_natCast, ← zpow_add₀ (by norm_num)]
        rfl
    _ ≤ greatest := le_greatest canonical le_rfl

-- -----------------------------------------------------------------------------------------------
-- Finite results

theorem isFinite_of_abs_le (le : x.abs ≤ y) (bound : Denotes y w) : x.isFinite := by
  by_contra infinite
  have le : (Float.Model.pack x.toModel.unpack.abs).unpack.le y.toModel.unpack :=
    of_decide_eq_true (p := x.abs.toModel ≤ y.toModel) le
  rcases notANumber_or_infinity (Bool.eq_false_of_not_eq_true infinite) with
    unpacked | ⟨sign, unpacked⟩
  · rw [unpacked] at le
    cases le
  · have packed : (Float.Model.pack (.infinity .positive)).unpack = .infinity .positive := rfl
    rw [unpacked, UnpackedFloat.abs, packed] at le
    rcases HasValue.zero_or_finite bound with ⟨_, unpacked, -⟩ | ⟨_, _, _, _, unpacked, -⟩
      <;> rw [unpacked] at le <;> cases le

/-- What is made of a float is not finite unless the float is, when infinities and NaN stay. -/
theorem isFinite_of_operation {g : UnpackedFloat → UnpackedFloat} {z : Float}
    (made : z.toModel = .pack (g x.toModel.unpack))
    (notANumber : (g .notANumber).isFinite = false)
    (infinity : ∀ sign, (g (.infinity sign)).isFinite = false) (finite : z.isFinite)
    : x.isFinite := by
  by_contra infinite
  have lost : (g x.toModel.unpack).isFinite = false := by
    rcases notANumber_or_infinity (Bool.eq_false_of_not_eq_true infinite) with
      unpacked | ⟨sign, unpacked⟩
    · rw [unpacked, notANumber]
    · rw [unpacked, infinity]
  have lost : z.toModel.unpack.isFinite = false := made ▸ isFinite_unpack_pack_eq_false lost
  have finite : z.toModel.unpack.isFinite := finite
  rw [lost] at finite
  cases finite

/-- Nothing finite can be taken from a float that is not, to leave a finite one. -/
theorem isFinite_of_sub (denotes : Denotes y w) (finite : (x - y).isFinite) : x.isFinite := by
  refine isFinite_of_operation (g := (UnpackedFloat.sub .binary64 · y.toModel.unpack)) rfl ?_ ?_
    finite
  all_goals
    rcases HasValue.zero_or_finite denotes with ⟨_, unpacked, -⟩ | ⟨_, _, _, _, unpacked, -⟩
      <;> rw [unpacked] <;> intros <;> rfl

theorem isFinite_of_mul (finite : (x * y).isFinite) : y.isFinite := by
  refine isFinite_of_operation (g := UnpackedFloat.mul .binary64 x.toModel.unpack) rfl ?_ ?_ finite
  all_goals cases x.toModel.unpack <;> intros <;> rfl

theorem isFinite_of_add (finite : (x + y).isFinite) : y.isFinite := by
  refine isFinite_of_operation (g := UnpackedFloat.add .binary64 x.toModel.unpack) rfl ?_ ?_ finite
  · cases x.toModel.unpack <;> rfl
  · intro sign
    cases x.toModel.unpack with
    | infinity sign' => cases sign <;> cases sign' <;> rfl
    | notANumber | zero | finite => rfl

-- -----------------------------------------------------------------------------------------------
-- Reciprocals

theorem greatest_lt_two_pow : greatest < 2 ^ 1024 := by
  have less : greatest < 2 ^ 52 * 2 ^ (972 : Int) := mantissa_mul_two_pow_lt (by decide) (by decide)
  rwa [← zpow_natCast, ← zpow_add₀ (by norm_num)] at less

/-- Sizes above `2 ^ -1024` begin with the next multiple of the least float. -/
theorem one_le_greatest_mul (denotes : Denotes x v) (large : 2 ^ (-1024 : Int) < |v|)
    : 1 ≤ greatest * |v| := by
  obtain ⟨n, value⟩ := denotes.representable.exists_multiple
  have split : (2 : ℚ) ^ (-1024 : Int) = (2 ^ 50 : Nat) * 2 ^ (-1074 : Int) := by
    rw [Nat.cast_pow, Nat.cast_ofNat, ← zpow_natCast, ← zpow_add₀ (by norm_num)]
    rfl
  have power : (2 : ℚ) ^ (971 : Int) * 2 ^ (-1074 : Int) = 2 ^ (-103 : Int) := by
    rw [← zpow_add₀ (by norm_num)]
    rfl
  have next : 2 ^ 50 + 1 ≤ n := by
    rw [value, split] at large
    exact_mod_cast lt_of_mul_lt_mul_right large (zpow_pos (by norm_num) _).le
  calc (1 : ℚ)
    _ ≤ ((2 ^ 53 - 1 : Nat) * (2 ^ 50 + 1 : Nat)) * 2 ^ (-103 : Int) := by norm_num
    _ ≤ ((2 ^ 53 - 1 : Nat) * n) * 2 ^ (-103 : Int) := by gcongr
    _ = greatest * |v| := by rw [value, greatest, ← power, mul_mul_mul_comm]

/-- The reciprocal of a float is finite unless the float is too small. -/
theorem isFinite_one_div_iff (denotes : Denotes x v) (nonzero : v ≠ 0)
    : (1.0 / x).isFinite ↔ 2 ^ (-1024 : Int) < |v| := by
  have rounds : RoundsTo (1 / v) (1.0 / x) := denotes_one.div denotes nonzero
  constructor
  · intro finite
    obtain ⟨q, quotient⟩ := isFinite_iff.mp finite
    by_contra small
    have reached : 2 ^ 1024 ≤ |1 / v| := by
      rw [abs_div, abs_one, le_div_iff₀ (abs_pos.mpr nonzero), ← le_div_iff₀' (by positivity)]
      rwa [not_lt, zpow_neg, ← one_div] at small
    have beyond := (rounds.faithful quotient).reaches (representable_two_pow 1024) reached
    exact absurd (beyond.trans quotient.inRange) greatest_lt_two_pow.not_ge
  · intro large
    have inRange : |1 / v| ≤ greatest := by
      rw [abs_div, abs_one, div_le_iff₀ (abs_pos.mpr nonzero)]
      exact one_le_greatest_mul denotes large
    exact rounds.isFinite inRange

-- -----------------------------------------------------------------------------------------------
-- Sizes

/-- The float is finite, and its size is at most a power of two. -/
def Within (x : Float) (k : Nat) : Prop :=
  ∃ v, Denotes x v ∧ |v| ≤ 2 ^ k

namespace Within

theorem isFinite (within : Within x k) : x.isFinite :=
  have ⟨v, denotes, _⟩ := within
  isFinite_iff.mpr ⟨v, denotes⟩

theorem mono (within : Within x j) (le : j ≤ k) : Within x k :=
  have ⟨v, denotes, bound⟩ := within
  ⟨v, denotes, bound.trans (pow_le_pow_right₀ (by norm_num) le)⟩

theorem of_roundsTo (rounds : RoundsTo v x) (le : |v| ≤ 2 ^ k) (small : k ≤ 1023) : Within x k := by
  obtain ⟨w, denotes, faithful⟩ := rounds.exists_denotes (le.trans (two_pow_le_greatest small))
  exact ⟨w, denotes, faithful.bounded (representable_two_pow k) le⟩

/-- A bound that holds for floats holds for what they denote. -/
theorem of_abs_le (le : x.abs ≤ y) (denotes : Denotes y w) (bound : w ≤ 2 ^ k) : Within x k := by
  obtain ⟨v, denotes'⟩ := isFinite_iff.mp (isFinite_of_abs_le le denotes)
  exact ⟨v, denotes', (denotes'.abs.le denotes le).trans bound⟩

theorem mul (left : Within x j) (right : Within y k) (small : j + k ≤ 1023)
    : Within (x * y) (j + k) := by
  obtain ⟨v, denotes, le⟩ := left
  obtain ⟨w, denotes', le'⟩ := right
  refine of_roundsTo (denotes.mul denotes') ?_ small
  rw [abs_mul, pow_add]
  gcongr

theorem add (left : Within x k) (right : Within y k) (small : k + 1 ≤ 1023)
    : Within (x + y) (k + 1) := by
  obtain ⟨v, denotes, le⟩ := left
  obtain ⟨w, denotes', le'⟩ := right
  refine of_roundsTo (denotes.add denotes') ((abs_add_le v w).trans ?_) small
  rw [pow_succ]
  linarith

end Within

end MeasureSheet.Binary64
