import MeasureSheet.Proofs.Binary64.Arithmetic

/-! Signs of floats. A finite float has a minus sign or has none, be it a zero or not, and changing
its sign twice gives it back.
-/

namespace MeasureSheet.Binary64

open Float.Model (UnpackedFloat)
open Float.Model.UnpackedFloat

variable {x y : Float} {u : UnpackedFloat} {v : ℚ}

/-- A float is determined by what its bits stand for. -/
theorem eq_of_unpack (same : x.toModel.unpack = y.toModel.unpack) : x = y := by
  obtain ⟨⟨⟨bits⟩, valid⟩⟩ := x
  obtain ⟨⟨⟨bits'⟩, valid'⟩⟩ := y
  obtain rfl : bits = bits' := (unpack_inj_of_valid valid valid').mp same
  rfl

/-- What has a value in the range of floats is what the bits that it is packed into stand for. -/
theorem HasValue.unpack_pack (value : HasValue u v) (inRange : |v| ≤ greatest)
    : (Float.Model.pack u).unpack = u := by
  rcases value.zero_or_finite with ⟨sign, rfl, rfl⟩ | ⟨sign, m, e, positive, rfl, canonical, rfl⟩
  · cases sign <;> rfl
  · rw [abs_withSign, abs_of_nonneg (by positivity)] at inRange
    exact unpack_pack_finite canonical (exponent_le canonical inRange) positive

theorem unpack_neg (finite : x.isFinite) : (-x).toModel.unpack = x.toModel.unpack.neg := by
  obtain ⟨v, denotes⟩ := isFinite_iff.mp finite
  exact (HasValue.neg denotes).unpack_pack (by rw [abs_neg]; exact denotes.inRange)

theorem isFinite_neg (finite : x.isFinite) : (-x).isFinite := by
  obtain ⟨v, denotes⟩ := isFinite_iff.mp finite
  exact isFinite_iff.mpr ⟨-v, denotes.neg⟩

theorem neg_neg_float (finite : x.isFinite) : - -x = x := by
  apply eq_of_unpack
  rw [unpack_neg (isFinite_neg finite), unpack_neg finite]
  cases x.toModel.unpack with
  | notANumber => rfl
  | infinity sign | zero sign | finite sign => cases sign <;> rfl

-- -----------------------------------------------------------------------------------------------
-- Floats without a minus sign

/-- The float is finite and has no minus sign. -/
inductive Unsigned (x : Float) : Prop where
  | zero (unpacked : x.toModel.unpack = .zero .positive)
  | positive {m : Nat} {e : Int} {positive : 0 < m}
    (unpacked : x.toModel.unpack = .finite .positive m e positive)

theorem lt_iff : x < y ↔ x.toModel.unpack.lt y.toModel.unpack := by
  change Float.lt x y ↔ _
  rw [Float.lt, decide_eq_true_iff]
  rfl

theorem unpack_negativeZero : (-0.0 : Float).toModel.unpack = .zero .negative :=
  rfl

theorem denotes_negativeZero : Denotes (-0.0) 0 := by
  rw [Denotes, unpack_negativeZero]
  rfl

/-- Packing makes no zero with a minus sign. -/
theorem ne_negativeZero_of_pack (value : HasValue u v) (signed : u ≠ .zero .negative)
    (packed : x.toModel = .pack u)
    : x ≠ -0.0 := by
  rintro rfl
  have unpacked := unpack_negativeZero
  rw [packed] at unpacked
  rcases value.zero_or_finite with ⟨sign, rfl, -⟩ | ⟨sign, m, e, positive, rfl, canonical, -⟩
  · cases sign with
    | positive => cases unpacked
    | negative => exact signed rfl
  · by_cases high : e ≤ 971
    · rw [unpack_pack_finite canonical high] at unpacked
      cases unpacked
    · rw [unpack_pack_overflow (by omega)] at unpacked
      cases unpacked

/-- A finite float without a minus sign is one of these, and the others are their opposites. -/
theorem unsigned_cases (finite : x.isFinite)
    : Unsigned x ∨ x = -0.0 ∨ x < 0.0 ∧ Unsigned (-x) := by
  obtain ⟨v, denotes⟩ := isFinite_iff.mp finite
  rcases HasValue.zero_or_finite denotes with
    ⟨sign, unpacked, -⟩ | ⟨sign, m, e, positive, unpacked, -, -⟩
  · cases sign with
    | positive => exact Or.inl (.zero unpacked)
    | negative => exact Or.inr (Or.inl (eq_of_unpack (unpacked.trans unpack_negativeZero.symm)))
  · cases sign with
    | positive => exact Or.inl (.positive unpacked)
    | negative =>
        refine Or.inr (Or.inr ⟨?_, .positive (by rw [unpack_neg finite, unpacked]; rfl)⟩)
        rw [lt_iff, unpacked, unpack_zero]
        rfl

namespace Unsigned

theorem isFinite (unsigned : Unsigned x) : x.isFinite := by
  change x.toModel.unpack.isFinite
  cases unsigned with
  | zero unpacked | positive unpacked =>
      rw [unpacked]
      rfl

theorem not_lt_zero (unsigned : Unsigned x) : ¬ x < 0.0 := by
  rw [lt_iff, unpack_zero]
  cases unsigned with
  | zero unpacked | positive unpacked =>
      rw [unpacked]
      simp [UnpackedFloat.lt, UnpackedFloat.compare]

theorem ne_negativeZero (unsigned : Unsigned x) : x ≠ -0.0 := by
  rintro rfl
  cases unsigned with
  | zero unpacked | positive unpacked => cases unpacked

theorem iff_of_zero {sign : Sign} (unpacked : x.toModel.unpack = .zero sign)
    : Unsigned x ↔ sign = .positive := by
  constructor
  · rintro (unsigned | unsigned)
    · exact (UnpackedFloat.zero.inj (unsigned.symm.trans unpacked)).symm
    · cases unsigned.symm.trans unpacked
  · rintro rfl
    exact .zero unpacked

theorem iff_of_finite {sign : Sign} {m : Nat} {e : Int} {positive : 0 < m}
    (unpacked : x.toModel.unpack = .finite sign m e positive)
    : Unsigned x ↔ sign = .positive := by
  constructor
  · rintro (unsigned | unsigned)
    · cases unsigned.symm.trans unpacked
    · exact (UnpackedFloat.finite.inj (unsigned.symm.trans unpacked)).1.symm
  · rintro rfl
    exact .positive unpacked

/-- The opposite of a float without a minus sign has one. -/
theorem not_neg (unsigned : Unsigned x) : ¬ Unsigned (-x) := by
  have opposite := unpack_neg unsigned.isFinite
  cases unsigned with
  | zero unpacked =>
      have opposite : (-x).toModel.unpack = .zero .negative := by
        rw [opposite, unpacked]
        rfl
      simp [iff_of_zero opposite]
  | @positive m e positive unpacked =>
      have opposite : (-x).toModel.unpack = .finite .negative m e positive := by
        rw [opposite, unpacked]
        rfl
      simp [iff_of_finite opposite]

/-- A number that is not negative has no minus sign, unless it is a zero with one. -/
theorem of_denotes (denotes : Denotes x v) (nonneg : 0 ≤ v) (signed : x ≠ -0.0) : Unsigned x := by
  rcases HasValue.zero_or_finite denotes with
    ⟨sign, unpacked, -⟩ | ⟨sign, m, e, positive, unpacked, -, value⟩
  · cases sign with
    | positive => exact .zero unpacked
    | negative => exact absurd (eq_of_unpack (unpacked.trans unpack_negativeZero.symm)) signed
  · cases sign with
    | positive => exact .positive unpacked
    | negative =>
        have below : 0 < (m : ℚ) * 2 ^ e := by positivity
        rw [value, withSign] at nonneg
        linarith

theorem of_pos (denotes : Denotes x v) (positive : 0 < v) : Unsigned x := by
  refine of_denotes denotes positive.le ?_
  rintro rfl
  exact positive.ne (denotes.unique denotes_negativeZero)

/-- A natural number has no minus sign, unless it is a zero with one. -/
theorem of_natCast {n : Nat} (denotes : Denotes x n) (zero : n = 0 → x ≠ -0.0) : Unsigned x := by
  cases n with
  | zero => exact of_denotes denotes (by positivity) (zero rfl)
  | succ n => exact of_pos denotes (by positivity)

end Unsigned

theorem unsigned_ofNat {n : Nat} (small : n < 2 ^ 53) : Unsigned (Float.ofNat n) := by
  refine .of_natCast (denotes_ofNat small) ?_
  rintro rfl
  decide

-- -----------------------------------------------------------------------------------------------
-- Floats of one number

/-- No number has two canonical forms. -/
theorem Canonical.unique {m m' : Nat} {e e' : Int} (canonical : Canonical m e)
    (canonical' : Canonical m' e') (same : (m : ℚ) * 2 ^ e = m' * 2 ^ e')
    : m = m' ∧ e = e' := by
  rcases lt_trichotomy e e' with lower | rfl | higher
  · exact absurd same (HasValue.lt_of_lower_exponent canonical canonical' lower).ne
  · have mantissa : (m : ℚ) = m' := mul_right_cancel₀ (by positivity) same
    exact ⟨by exact_mod_cast mantissa, rfl⟩
  · exact absurd same.symm (HasValue.lt_of_lower_exponent canonical' canonical higher).ne

/-- Floats of one number and one sign are equal. -/
theorem Denotes.eq_of_sign (denotes : Denotes x v) (denotes' : Denotes y v)
    (signs : Unsigned x ↔ Unsigned y)
    : x = y := by
  have same {sign sign' : Sign} (iff : sign = .positive ↔ sign' = .positive) : sign = sign' := by
    cases sign <;> cases sign' <;> simp_all
  apply eq_of_unpack
  rcases HasValue.zero_or_finite denotes with
      ⟨sign, unpacked, rfl⟩ | ⟨sign, m, e, positive, unpacked, canonical, rfl⟩
    <;> rcases HasValue.zero_or_finite denotes' with
      ⟨sign', unpacked', value⟩ | ⟨sign', m', e', positive', unpacked', canonical', value⟩
  · rw [Unsigned.iff_of_zero unpacked, Unsigned.iff_of_zero unpacked'] at signs
    rw [unpacked, unpacked', same signs]
  · exact absurd ((withSign_eq_zero_iff sign' _).mp value.symm) (by positivity)
  · exact absurd ((withSign_eq_zero_iff sign _).mp value) (by positivity)
  · rw [Unsigned.iff_of_finite unpacked, Unsigned.iff_of_finite unpacked'] at signs
    obtain rfl := same signs
    obtain ⟨rfl, rfl⟩ := canonical.unique canonical' ((withSign_inj_iff sign _ _).mp value)
    rw [unpacked, unpacked']

end MeasureSheet.Binary64
