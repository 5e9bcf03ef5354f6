import MeasureSheet.Proofs.Binary64.Rounding

/-! Arithmetic of floats. Every finite float denotes a number, and what an operation gives is the
number that the operation has on the denoted ones, rounded faithfully, unless it is too large.
-/

namespace MeasureSheet.Binary64

open Float.Model (Format totalExponent UnpackedFloat)
open Float.Model.UnpackedFloat

-- -----------------------------------------------------------------------------------------------
-- Signs

section Signs

variable (sign sign' : Sign) (v w : ℚ)

theorem abs_withSign : |withSign sign v| = |v| := by
  cases sign with
  | positive => rfl
  | negative => exact abs_neg v

theorem withSign_eq_zero_iff : withSign sign v = 0 ↔ v = 0 := by
  rw [← abs_eq_zero, abs_withSign, abs_eq_zero]

theorem withSign_inj_iff : withSign sign v = withSign sign w ↔ v = w := by
  cases sign with
  | positive => rfl
  | negative => exact neg_inj

theorem withSign_neg : withSign (-sign) v = -withSign sign v := by
  cases sign with
  | positive => rfl
  | negative => exact (neg_neg v).symm

theorem withSign_mul_right : withSign sign v * w = withSign sign (v * w) := by
  cases sign with
  | positive => rfl
  | negative => exact neg_mul v w

theorem withSign_mul : withSign (sign * sign') (v * w) = withSign sign v * withSign sign' w := by
  cases sign <;> cases sign'
  · exact (neg_mul_neg v w).symm
  · exact (neg_mul v w).symm
  · exact (mul_neg v w).symm
  · rfl

theorem withSign_div : withSign (sign / sign') (v / w) = withSign sign v / withSign sign' w := by
  cases sign <;> cases sign'
  · exact (neg_div_neg_eq v w).symm
  · exact (neg_div w v).symm
  · exact (div_neg v).symm
  · rfl

theorem cast_apply (n : Int) : ((sign.apply n : Int) : ℚ) = withSign sign n := by
  cases sign with
  | positive => rfl
  | negative => exact Int.cast_neg n

end Signs

-- -----------------------------------------------------------------------------------------------
-- Operations before their results are packed

variable {u u' : UnpackedFloat} {v w : ℚ}

/-- What is not finite is an infinity or no number. -/
theorem notANumber_or_infinity (infinite : u.isFinite = false)
    : u = .notANumber ∨ ∃ sign, u = .infinity sign := by
  cases u with
  | notANumber => exact Or.inl rfl
  | infinity sign => exact Or.inr ⟨sign, rfl⟩
  | zero => cases infinite
  | finite => cases infinite

namespace HasValue

/-- What has a value is a zero or has a canonical form. -/
theorem zero_or_finite (value : HasValue u v)
    : (∃ sign, u = .zero sign ∧ v = 0)
      ∨ ∃ sign m e positive,
          u = .finite sign m e positive ∧ Canonical m e ∧ v = withSign sign (m * 2 ^ e) := by
  cases u with
  | notANumber => exact value.elim
  | infinity => exact value.elim
  | zero sign => exact Or.inl ⟨sign, rfl, value⟩
  | finite sign m e positive => exact Or.inr ⟨sign, m, e, positive, rfl, value⟩

theorem unique (value : HasValue u v) (value' : HasValue u w) : w = v := by
  cases u with
  | notANumber | infinity => exact value.elim
  | zero sign => exact value'.trans value.symm
  | finite sign m e positive => exact value'.2.trans value.2.symm

theorem neg (value : HasValue u v) : HasValue u.neg (-v) := by
  rcases value.zero_or_finite with ⟨sign, rfl, rfl⟩ | ⟨sign, m, e, positive, rfl, canonical, rfl⟩
  · exact neg_zero
  · exact ⟨canonical, (withSign_neg sign _).symm⟩

theorem abs (value : HasValue u v) : HasValue u.abs |v| := by
  rcases value.zero_or_finite with ⟨sign, rfl, rfl⟩ | ⟨sign, m, e, positive, rfl, canonical, rfl⟩
  · exact abs_zero
  · refine ⟨canonical, ?_⟩
    rw [abs_withSign, abs_of_nonneg (by positivity)]
    rfl

/-- Sums are computed on the grid of the lower exponent. -/
theorem exists_add (value : HasValue u v) (value' : HasValue u' w)
    : ∃ sum, HasValue (.add .binary64 u u') sum ∧ Faithful (v + w) sum := by
  rcases value.zero_or_finite with ⟨sign, rfl, rfl⟩ | ⟨sign, m, e, positive, rfl, canonical, rfl⟩
    <;> rcases value'.zero_or_finite with
      ⟨sign', rfl, rfl⟩ | ⟨sign', m', e', positive', rfl, canonical', rfl⟩
  · exact ⟨0, by cases sign <;> cases sign' <;> rfl, by simpa using Faithful.refl 0⟩
  · exact ⟨_, value', by simpa using Faithful.refl _⟩
  · exact ⟨_, value, by simpa using Faithful.refl _⟩
  · have normalized := exists_faithful_normalize
      (sign.apply (m * 2 ^ (e - min e e').toNat : Nat)
        + sign'.apply (m' * 2 ^ (e' - min e e').toNat : Nat)) (min e e') .positive
    rw [Int.cast_add, cast_apply, cast_apply, add_mul, withSign_mul_right, withSign_mul_right,
      Int.cast_natCast, Int.cast_natCast, ← mantissa_mul_two_pow (min_le_left e e'),
      ← mantissa_mul_two_pow (min_le_right e e')] at normalized
    rw [← Nat.shiftLeft_eq, ← Nat.shiftLeft_eq] at normalized
    exact normalized

theorem sub_eq_add (u u' : UnpackedFloat)
    : UnpackedFloat.sub .binary64 u u' = .add .binary64 u u'.neg := by
  cases u with
  | notANumber => rfl
  | infinity => cases u' <;> rfl
  | zero => cases u' <;> rfl
  | finite sign m e positive =>
      cases u' with
      | notANumber | infinity | zero => rfl
      | finite sign' m' e' positive' =>
          have opposite (n : Int) : (-sign').apply n = -sign'.apply n := by
            cases sign'
            · exact (neg_neg n).symm
            · rfl
          simp only [UnpackedFloat.sub, UnpackedFloat.neg, UnpackedFloat.add, opposite,
            sub_eq_add_neg]

/-- Products have bits enough, as canonical mantissas are full unless exponents are the least. -/
theorem fits_mul {m m' : Nat} {e e' : Int} (canonical : Canonical m e)
    (canonical' : Canonical m' e') (positive : 0 < m) (positive' : 0 < m')
    : e + e' ≤ Format.binary64.targetExponent (totalExponent (m * m') (e + e')) := by
  have length (le : 2 ^ 52 ≤ m * m') : 52 ≤ (m * m').log2 :=
    (Nat.le_log2 (Nat.mul_pos positive positive').ne').mpr le
  rw [targetExponent_eq, totalExponent]
  rcases canonical.full with full | least
  · have := length (full.trans (Nat.le_mul_of_pos_right m positive'))
    omega
  · rcases canonical'.full with full | least'
    · have := length (full.trans (Nat.le_mul_of_pos_left m' positive))
      omega
    · omega

theorem exists_mul (value : HasValue u v) (value' : HasValue u' w)
    : ∃ product, HasValue (.mul .binary64 u u') product ∧ Faithful (v * w) product := by
  rcases value.zero_or_finite with ⟨sign, rfl, rfl⟩ | ⟨sign, m, e, positive, rfl, canonical, rfl⟩
    <;> rcases value'.zero_or_finite with
      ⟨sign', rfl, rfl⟩ | ⟨sign', m', e', positive', rfl, canonical', rfl⟩
  · exact ⟨0, rfl, by simpa using Faithful.refl 0⟩
  · exact ⟨0, rfl, by simpa using Faithful.refl 0⟩
  · exact ⟨0, rfl, by simpa using Faithful.refl 0⟩
  · have product
        : withSign sign (m * 2 ^ e) * withSign sign' (m' * 2 ^ e')
          = withSign (sign * sign') ((m * m' : Nat) * 2 ^ (e + e')) := by
      rw [← withSign_mul, zpow_add₀ (by norm_num)]
      push_cast
      congr 1
      ring
    rw [product]
    exact exists_faithful_roundWithAccuracy (halves_exact _)
      (fits_mul canonical canonical' positive positive') _

/-- A rest tells on which side of the half its fraction of the divisor lies. -/
theorem halves_fraction (m : Nat) {r d : Nat} (less : r < d)
    : Halves (.ofMantissaAndAccuracy m (accuracyOfFraction r d)) (m + r / d : ℚ) := by
  have size : (0 : ℚ) < d := by exact_mod_cast Nat.zero_lt_of_lt less
  have below_one : (r : ℚ) / d < 1 := by
    rw [div_lt_one size]
    exact_mod_cast less
  unfold accuracyOfFraction
  split
  next none =>
    rw [none]
    simpa using halves_exact m
  next rest =>
  have some : 0 < (r : ℚ) / d := by
    have rest : 0 < r := Nat.pos_of_ne_zero rest
    positivity
  rcases lt_trichotomy (2 * r) d with below | tie | above
  · have below' : (r : ℚ) / d < 1 / 2 := by
      rw [div_lt_div_iff₀ size two_pos, one_mul, mul_comm]
      exact_mod_cast below
    rw [compare_lt_iff_lt.mpr below]
    exact ⟨lt_add_of_pos_right _ some, (add_lt_add_iff_left _).mpr below'⟩
  · have tie' : (r : ℚ) / d = 1 / 2 := by
      rw [div_eq_div_iff size.ne' two_ne_zero, one_mul, mul_comm]
      exact_mod_cast tie
    rw [compare_eq_iff_eq.mpr tie, tie']
    rfl
  · have above' : (1 / 2 : ℚ) < r / d := by
      rw [div_lt_div_iff₀ two_pos size, one_mul, mul_comm]
      exact_mod_cast above
    rw [compare_gt_iff_gt.mpr above]
    exact ⟨(add_lt_add_iff_left _).mpr above', (add_lt_add_iff_left _).mpr below_one⟩

/-- The whole quotient and its rest tell on which side of the half the exact quotient lies. -/
theorem halves_div (n : Nat) {d : Nat} (positive : 0 < d)
    : Halves (.ofMantissaAndAccuracy (n / d) (accuracyOfFraction (n % d) d)) ((n : ℚ) / d) := by
  have size : (d : ℚ) ≠ 0 := by exact_mod_cast positive.ne'
  have whole : (n : ℚ) = d * (n / d : Nat) + (n % d : Nat) := by
    exact_mod_cast (Nat.div_add_mod n d).symm
  have quotient : (n : ℚ) / d = (n / d : Nat) + (n % d : Nat) / d := by
    rw [div_eq_iff size, add_mul, div_mul_cancel₀ _ size, mul_comm _ (d : ℚ), ← whole]
  rw [quotient]
  exact halves_fraction (n / d) (Nat.mod_lt n positive)

/-- Quotients have bits enough: the dividend is shifted until they have. -/
theorem fits_div {m m' : Nat} (positive : 0 < m) (positive' : 0 < m') (e e' : Int)
    : (divCore .binary64 m e m' e').2.1
      ≤ Format.binary64.targetExponent
          (totalExponent (divCore .binary64 m e m' e').1 (divCore .binary64 m e m' e').2.1) := by
  simp only [divCore, targetExponent_eq, totalExponent]
  have length := Nat.log2_self_le positive.ne'
  have length' := @Nat.lt_log2_self m'
  generalize m.log2 = l at *
  generalize m'.log2 = l' at *
  generalize target : min (e - e') (max ((l : Int) + 1 + e - (l' + 1 + e') - 53) (-1074)) = t
  generalize shift : (e - e' - t).toNat = s
  by_cases low : t ≤ -1074
  · exact low.trans (le_max_right _ _)
  · have bits : 52 + (l' + 1) ≤ l + s := by omega
    have full : 2 ^ 52 ≤ m <<< s / m' := by
      rw [Nat.le_div_iff_mul_le positive', Nat.shiftLeft_eq]
      calc 2 ^ 52 * m'
        _ ≤ 2 ^ 52 * 2 ^ (l' + 1) := Nat.mul_le_mul_left _ length'.le
        _ = 2 ^ (52 + (l' + 1)) := (Nat.pow_add 2 52 (l' + 1)).symm
        _ ≤ 2 ^ (l + s) := Nat.pow_le_pow_right (by decide) bits
        _ = 2 ^ l * 2 ^ s := Nat.pow_add 2 l s
        _ ≤ m * 2 ^ s := Nat.mul_le_mul_right _ length
    have := (Nat.le_log2 (by omega)).mpr full
    omega

/-- A quotient of numbers is one of mantissas, of which the dividend is shifted to an exponent. -/
theorem div_eq_shiftLeft_div {m m' : Nat} {e e' t : Int} (lower : t ≤ e - e')
    : (m : ℚ) * 2 ^ e / (m' * 2 ^ e') = (m <<< (e - e' - t).toNat : Nat) / m' * 2 ^ t := by
  rw [Nat.shiftLeft_eq, div_mul_eq_mul_div, ← mantissa_mul_two_pow lower, zpow_sub₀ (by norm_num)]
  field_simp

/-- The quotient of two mantissas is rounded, whether they are canonical or not. -/
theorem exists_div_finite (sign sign' : Sign) {m m' : Nat} (e e' : Int) (positive : 0 < m)
    (positive' : 0 < m')
    : ∃ quotient,
        HasValue (.div .binary64 (.finite sign m e positive) (.finite sign' m' e' positive'))
          quotient
        ∧ Faithful (withSign sign (m * 2 ^ e) / withSign sign' (m' * 2 ^ e')) quotient := by
  have lower : (divCore .binary64 m e m' e').2.1 ≤ e - e' := min_le_left _ _
  rw [← withSign_div, div_eq_shiftLeft_div lower]
  exact exists_faithful_roundWithAccuracy (halves_div _ positive')
    (fits_div positive positive' e e') _

theorem exists_div (value : HasValue u v) (value' : HasValue u' w) (nonzero : w ≠ 0)
    : ∃ quotient, HasValue (.div .binary64 u u') quotient ∧ Faithful (v / w) quotient := by
  rcases value'.zero_or_finite with
    ⟨sign', rfl, rfl⟩ | ⟨sign', m', e', positive', rfl, canonical', rfl⟩
  · exact absurd rfl nonzero
  rcases value.zero_or_finite with ⟨sign, rfl, rfl⟩ | ⟨sign, m, e, positive, rfl, canonical, rfl⟩
  · exact ⟨0, rfl, by simpa using Faithful.refl 0⟩
  · exact exists_div_finite sign sign' e e' positive positive'

/-- Canonical forms are compared by their exponents first. -/
theorem lt_of_lower_exponent {m m' : Nat} {e e' : Int} (canonical : Canonical m e)
    (canonical' : Canonical m' e') (lower : e < e')
    : (m : ℚ) * 2 ^ e < m' * 2 ^ e' := by
  have low := canonical.low
  have full : (2 : ℚ) ^ 52 ≤ m' := by exact_mod_cast canonical'.full.resolve_right (by omega)
  have above : (2 : ℚ) ^ 52 * 2 ^ e' ≤ m' * 2 ^ e' := by gcongr
  exact (mantissa_mul_two_pow_lt canonical.small lower).trans_le above

theorem le_of_canonical {m m' : Nat} {e e' : Int} (canonical : Canonical m e)
    (canonical' : Canonical m' e') (le : ((compare e e').then (compare m m')).isLE)
    : (m : ℚ) * 2 ^ e ≤ m' * 2 ^ e' := by
  rcases Ordering.isLE_then_iff_or.mp le with lower | ⟨same, less⟩
  · exact (lt_of_lower_exponent canonical canonical' (compare_lt_iff_lt.mp lower)).le
  · obtain rfl := compare_eq_iff_eq.mp same
    have less := Nat.isLE_compare.mp less
    gcongr

theorem le (value : HasValue u v) (value' : HasValue u' w) (le : u.le u') : v ≤ w := by
  unfold UnpackedFloat.le at le
  rcases value.zero_or_finite with ⟨sign, rfl, rfl⟩ | ⟨sign, m, e, positive, rfl, canonical, rfl⟩
    <;> rcases value'.zero_or_finite with
      ⟨sign', rfl, rfl⟩ | ⟨sign', m', e', positive', rfl, canonical', rfl⟩
  · exact le_rfl
  · cases sign' with
    | positive => exact mul_nonneg (by positivity) (by positivity)
    | negative => cases le
  · cases sign with
    | positive => cases le
    | negative => exact neg_nonpos.mpr (mul_nonneg (by positivity) (by positivity))
  · have nonneg : (0 : ℚ) ≤ m * 2 ^ e := by positivity
    have nonneg' : (0 : ℚ) ≤ m' * 2 ^ e' := by positivity
    cases sign <;> cases sign'
    · rw [UnpackedFloat.compare, Option.any_some, Ordering.swap_then, Int.compare_swap,
        Nat.compare_swap] at le
      exact neg_le_neg (le_of_canonical canonical' canonical le)
    · exact (neg_nonpos.mpr nonneg).trans nonneg'
    · cases le
    · exact le_of_canonical canonical canonical' le

end HasValue

-- -----------------------------------------------------------------------------------------------
-- The range of floats

/-- The greatest number that a float denotes. -/
def greatest : ℚ :=
  (2 ^ 53 - 1 : Nat) * 2 ^ (971 : Int)

theorem representable_greatest : Representable greatest := by
  refine ⟨2 ^ 53 - 1, 971, by decide, by decide, abs_of_nonneg ?_⟩
  unfold greatest
  positivity

theorem natCast_le_greatest {n : Nat} (small : n < 2 ^ 53) : (n : ℚ) ≤ greatest := by
  have power : (1 : ℚ) ≤ 2 ^ (971 : Int) := one_le_zpow₀ (by norm_num) (by norm_num)
  have le : (n : ℚ) ≤ (2 ^ 53 - 1 : Nat) := by exact_mod_cast Nat.le_pred_of_lt small
  calc (n : ℚ)
    _ = n * 1 := (mul_one _).symm
    _ ≤ greatest := by
        unfold greatest
        gcongr

theorem le_greatest {m : Nat} {e : Int} (canonical : Canonical m e) (high : e ≤ 971)
    : (m : ℚ) * 2 ^ e ≤ greatest := by
  have small : m ≤ 2 ^ 53 - 1 := Nat.le_pred_of_lt canonical.small
  unfold greatest
  gcongr
  norm_num

theorem exponent_le {m : Nat} {e : Int} (canonical : Canonical m e) (le : m * 2 ^ e ≤ greatest)
    : e ≤ 971 := by
  by_contra high
  have full : (2 : ℚ) ^ 52 ≤ m := by exact_mod_cast canonical.full.resolve_right (by omega)
  have beyond : (2 : ℚ) ^ 52 * 2 ^ (972 : Int) ≤ m * 2 ^ e := by
    gcongr
    · norm_num
    · omega
  have less : greatest < 2 ^ 52 * 2 ^ (972 : Int) :=
    mantissa_mul_two_pow_lt (by decide) (by decide)
  linarith

/-- A number in the range of floats survives the packing of its float. -/
theorem HasValue.pack (value : HasValue u v) (inRange : |v| ≤ greatest)
    : HasValue (Float.Model.pack u).unpack v := by
  rcases value.zero_or_finite with ⟨sign, rfl, rfl⟩ | ⟨sign, m, e, positive, rfl, canonical, rfl⟩
  · cases sign <;> rfl
  · rw [abs_withSign, abs_of_nonneg (by positivity)] at inRange
    rw [unpack_pack_finite canonical (exponent_le canonical inRange)]
    exact ⟨canonical, rfl⟩

/-- No other number takes the place of one outside the range. -/
theorem HasValue.eq_of_pack (value : HasValue u v)
    (packed : HasValue (Float.Model.pack u).unpack w)
    : w = v := by
  rcases value.zero_or_finite with ⟨sign, rfl, rfl⟩ | ⟨sign, m, e, positive, rfl, canonical, rfl⟩
  · cases sign <;> exact packed
  · by_cases high : e ≤ 971
    · rw [unpack_pack_finite canonical high] at packed
      exact packed.2
    · rw [unpack_pack_overflow (by omega)] at packed
      exact packed.elim

/-- Packing makes nothing finite that was not. -/
theorem isFinite_unpack_pack_eq_false (infinite : u.isFinite = false)
    : (Float.Model.pack u).unpack.isFinite = false := by
  rcases notANumber_or_infinity infinite with rfl | ⟨sign, rfl⟩
  · rfl
  · cases sign <;> rfl

-- -----------------------------------------------------------------------------------------------
-- Floats and the numbers that they denote

variable {x y : Float} {exact : ℚ}

/-- The float is finite, and this is its number. -/
def Denotes (x : Float) (v : ℚ) : Prop :=
  HasValue x.toModel.unpack v

/-- The float is what a number becomes when it is rounded faithfully and packed. -/
def RoundsTo (exact : ℚ) (x : Float) : Prop :=
  ∃ u v, x.toModel = .pack u ∧ HasValue u v ∧ Faithful exact v

theorem isFinite_iff : x.isFinite ↔ ∃ v, Denotes x v := by
  unfold Denotes
  change x.toModel.unpack.isFinite ↔ _
  cases unpacked : x.toModel.unpack with
  | notANumber => simp [UnpackedFloat.isFinite, HasValue]
  | infinity sign => simp [UnpackedFloat.isFinite, HasValue]
  | zero sign => simp [UnpackedFloat.isFinite, HasValue]
  | finite sign m e positive =>
      simp [UnpackedFloat.isFinite, HasValue, (canonical_of_unpack unpacked).1]

theorem denotes_of_unpack {sign : Sign} {m : Nat} {e : Int} {positive : 0 < m}
    (unpacked : x.toModel.unpack = .finite sign m e positive)
    : Denotes x (withSign sign (m * 2 ^ e)) := by
  rw [Denotes, unpacked]
  exact ⟨(canonical_of_unpack unpacked).1, rfl⟩

namespace RoundsTo

theorem faithful (rounds : RoundsTo exact x) (denotes : Denotes x v) : Faithful exact v := by
  obtain ⟨u, w, packed, value, faithful⟩ := rounds
  rw [Denotes, packed] at denotes
  exact value.eq_of_pack denotes ▸ faithful

theorem exists_denotes (rounds : RoundsTo exact x) (inRange : |exact| ≤ greatest)
    : ∃ v, Denotes x v ∧ Faithful exact v := by
  obtain ⟨u, v, packed, value, faithful⟩ := rounds
  refine ⟨v, ?_, faithful⟩
  rw [Denotes, packed]
  exact value.pack (faithful.bounded representable_greatest inRange)

theorem isFinite (rounds : RoundsTo exact x) (inRange : |exact| ≤ greatest) : x.isFinite := by
  obtain ⟨v, denotes, -⟩ := rounds.exists_denotes inRange
  exact isFinite_iff.mpr ⟨v, denotes⟩

end RoundsTo

namespace Denotes

theorem inRange (denotes : Denotes x v) : |v| ≤ greatest := by
  rcases HasValue.zero_or_finite denotes with
    ⟨sign, -, rfl⟩ | ⟨sign, m, e, positive, unpacked, canonical, rfl⟩
  · rw [abs_zero]
    exact_mod_cast natCast_le_greatest (by decide : 0 < 2 ^ 53)
  · rw [abs_withSign, abs_of_nonneg (by positivity)]
    exact le_greatest canonical (canonical_of_unpack unpacked).2

theorem unique (denotes : Denotes x v) (denotes' : Denotes x w) : w = v :=
  HasValue.unique denotes denotes'

theorem representable (denotes : Denotes x v) : Representable v := by
  rcases HasValue.zero_or_finite denotes with
    ⟨sign, -, rfl⟩ | ⟨sign, m, e, positive, -, canonical, rfl⟩
  · exact representable_zero
  · refine ⟨m, e, canonical.small, canonical.low, ?_⟩
    rw [abs_withSign, abs_of_nonneg (by positivity)]

theorem neg (denotes : Denotes x v) : Denotes (-x) (-v) :=
  (HasValue.neg denotes).pack (by rw [abs_neg]; exact denotes.inRange)

theorem abs (denotes : Denotes x v) : Denotes x.abs |v| :=
  (HasValue.abs denotes).pack (by rw [abs_abs]; exact denotes.inRange)

theorem add (left : Denotes x v) (right : Denotes y w) : RoundsTo (v + w) (x + y) := by
  obtain ⟨sum, value, faithful⟩ := HasValue.exists_add left right
  exact ⟨_, sum, rfl, value, faithful⟩

theorem sub (left : Denotes x v) (right : Denotes y w) : RoundsTo (v - w) (x - y) := by
  obtain ⟨sum, value, faithful⟩ := HasValue.exists_add left (HasValue.neg right)
  rw [← HasValue.sub_eq_add] at value
  rw [sub_eq_add_neg]
  exact ⟨_, sum, rfl, value, faithful⟩

theorem mul (left : Denotes x v) (right : Denotes y w) : RoundsTo (v * w) (x * y) := by
  obtain ⟨product, value, faithful⟩ := HasValue.exists_mul left right
  exact ⟨_, product, rfl, value, faithful⟩

theorem div (left : Denotes x v) (right : Denotes y w) (nonzero : w ≠ 0)
    : RoundsTo (v / w) (x / y) := by
  obtain ⟨quotient, value, faithful⟩ := HasValue.exists_div left right nonzero
  exact ⟨_, quotient, rfl, value, faithful⟩

theorem le (left : Denotes x v) (right : Denotes y w) (le : x ≤ y) : v ≤ w :=
  HasValue.le left right (of_decide_eq_true (p := x.toModel ≤ y.toModel) le)

/-- A division by one or more neither leaves the range of floats nor leads back into it. -/
theorem isFinite_div (divisor : Denotes y w) (x : Float) (least : 1 ≤ w)
    : (x / y).isFinite = x.isFinite := by
  cases finite : x.isFinite with
  | true =>
      obtain ⟨v, dividend⟩ := isFinite_iff.mp finite
      have bounded : |v / w| ≤ greatest := by
        rw [abs_div, abs_of_nonneg (zero_le_one.trans least)]
        exact (div_le_self (abs_nonneg v) least).trans dividend.inRange
      exact (dividend.div divisor (zero_lt_one.trans_le least).ne').isFinite bounded
  | false =>
      apply isFinite_unpack_pack_eq_false
      rcases notANumber_or_infinity finite with dividend | ⟨sign, dividend⟩
      · rw [dividend]
        rfl
      · rcases HasValue.zero_or_finite divisor with ⟨_, unpacked, -⟩ | ⟨_, _, _, _, unpacked, -⟩
          <;> rw [dividend, unpacked] <;> rfl

end Denotes

-- -----------------------------------------------------------------------------------------------
-- Whole numbers

theorem unpack_zero : (0.0 : Float).toModel.unpack = .zero .positive :=
  rfl

theorem denotes_zero : Denotes 0.0 0 := by
  rw [Denotes, unpack_zero]
  rfl

/-- A float that differs from zero denotes another number. -/
theorem Denotes.ne_zero (denotes : Denotes x v) (nonzero : ¬ x == 0.0) : v ≠ 0 := by
  rcases HasValue.zero_or_finite denotes with
    ⟨sign, unpacked, rfl⟩ | ⟨sign, m, e, positive, -, -, rfl⟩
  · refine absurd ?_ nonzero
    change x.toModel.unpack.beq (0.0 : Float).toModel.unpack
    rw [unpacked, unpack_zero]
    cases sign <;> rfl
  · rw [← abs_pos, abs_withSign, abs_of_nonneg (by positivity)]
    positivity

theorem denotes_one : Denotes 1.0 1 := by
  have unpacked : (1.0 : Float).toModel.unpack = .finite .positive (2 ^ 52) (-52) (by decide) := rfl
  have value := denotes_of_unpack unpacked
  norm_num [withSign] at value
  exact value

/-- Whole numbers of 53 bits are denoted exactly by the words that hold them. -/
theorem denotes_toUInt64 {n : Nat} (small : n < 2 ^ 53) : Denotes n.toUInt64.toFloat n := by
  have word : n.toUInt64.toNat = n := by
    apply UInt64.toNat_ofNat_of_lt'
    have size : UInt64.size = 2 ^ 64 := rfl
    omega
  have rounds : RoundsTo n n.toUInt64.toFloat := by
    obtain ⟨v, value, faithful⟩ := exists_faithful_normalize n.toUInt64.toNat 0 .positive
    rw [word] at faithful
    exact ⟨_, v, rfl, value, by simpa using faithful⟩
  have inRange : |(n : ℚ)| ≤ greatest := by
    rw [abs_of_nonneg (by positivity)]
    exact natCast_le_greatest small
  obtain ⟨v, whole, faithful⟩ := rounds.exists_denotes inRange
  obtain rfl := faithful.eq_of_representable (representable_natCast small)
  exact whole

/-- Whole numbers of 53 bits are denoted exactly. -/
theorem denotes_ofNat {n : Nat} (small : n < 2 ^ 53) : Denotes (Float.ofNat n) n := by
  have converted : Float.ofNat n = n.toUInt64.toFloat * .ofBits 0x3FF0000000000000 := by
    change Float.ofScientific n false 0 = _
    unfold Float.ofScientific
    rw [dif_pos ⟨small, by decide⟩]
    rfl
  have one : Denotes (.ofBits 0x3FF0000000000000) 1 := denotes_one
  have product := (denotes_toUInt64 small).mul one
  rw [mul_one] at product
  obtain ⟨v, denotes, faithful⟩ := product.exists_denotes (denotes_toUInt64 small).inRange
  obtain rfl := faithful.eq_of_representable (representable_natCast small)
  exact converted ▸ denotes

end MeasureSheet.Binary64
