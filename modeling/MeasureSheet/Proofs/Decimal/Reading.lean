import MeasureSheet.Decimal.Reading
import MeasureSheet.Proofs.Binary64.Bounds
import MeasureSheet.Proofs.Binary64.Nearest
import MeasureSheet.Proofs.Binary64.Signs

/-! The values of plain numerals: the float that is read is the number that the digits write,
rounded faithfully, however many digits there are.
-/

namespace MeasureSheet.Decimal

open Float.Model (Format totalExponent UnpackedFloat)
open Float.Model.UnpackedFloat
open Binary64

-- -----------------------------------------------------------------------------------------------
-- Powers of ten

/-- The bits of the float are those of a power of ten. -/
def holdsPowerOfTen (k : Nat) (x : Float) : Bool :=
  match x.toModel.unpack with
  | .finite .positive m e _ => -52 ≤ e && m * 2 ^ (e + 52).toNat == 10 ^ k * 2 ^ 52
  | _ => false

theorem denotes_of_holdsPowerOfTen {k : Nat} {x : Float} (holds : holdsPowerOfTen k x)
    : Denotes x (10 ^ k) := by
  unfold holdsPowerOfTen at holds
  split at holds
  next m e positive unpacked =>
    simp only [Bool.and_eq_true, decide_eq_true_eq, beq_iff_eq] at holds
    obtain ⟨low, equal⟩ := holds
    have value := denotes_of_unpack unpacked
    have equal : (m : ℚ) * 2 ^ (e + 52).toNat = 10 ^ k * 2 ^ 52 := by exact_mod_cast equal
    have power : (m : ℚ) * 2 ^ e = 10 ^ k := by
      rw [← zpow_natCast, Int.toNat_of_nonneg (by omega), zpow_add₀ (by norm_num), ← mul_assoc]
        at equal
      exact mul_right_cancel₀ (b := 2 ^ 52) (by norm_num) equal
    rwa [withSign, power] at value
  next => cases holds

theorem unsigned_of_holdsPowerOfTen {k : Nat} {x : Float} (holds : holdsPowerOfTen k x)
    : Unsigned x := by
  unfold holdsPowerOfTen at holds
  split at holds
  next unpacked => exact .positive unpacked
  next => cases holds

theorem holdsPowerOfTen_get (k : Fin Float.exactlyRepresentablePowersOfTen.size)
    : holdsPowerOfTen k (Float.exactlyRepresentablePowersOfTen[k]) := by
  decide +revert +kernel

/-- The powers of ten that are kept ready are exact. -/
theorem denotes_powerOfTen {k : Nat} (small : k < Float.exactlyRepresentablePowersOfTen.size)
    : Denotes Float.exactlyRepresentablePowersOfTen[k] (10 ^ k) :=
  denotes_of_holdsPowerOfTen (holdsPowerOfTen_get ⟨k, small⟩)

-- -----------------------------------------------------------------------------------------------
-- Scientific numbers

/-- A number below all positive floats is rounded to zero. -/
theorem faithful_zero {x : ℚ} (nonneg : 0 ≤ x) (tiny : x < 2 ^ (-1074 : Int))
    : Faithful x 0 := by
  refine ⟨fun b _ le => nonneg.trans le, fun b representable le => ?_⟩
  by_contra positive
  obtain ⟨n, value⟩ := representable.exists_multiple
  rw [abs_of_pos (by linarith)] at value
  have nonzero : n ≠ 0 := by
    rintro rfl
    simp [value] at positive
  have one : (1 : ℚ) ≤ n := by exact_mod_cast Nat.one_le_iff_ne_zero.mpr nonzero
  have bound : (2 : ℚ) ^ (-1074 : Int) ≤ b := value ▸ le_mul_of_one_le_left (by positivity) one
  linarith

/-- So many places leave nothing of a coefficient that floats could tell from zero. -/
theorem div_ten_pow_lt {m places : Nat} (many : 2 ^ 11 + m.log2 < places)
    : (m : ℚ) / 10 ^ places < 2 ^ (-1075 : Int) := by
  have size : (m : ℚ) < 2 ^ (m.log2 + 1) := by exact_mod_cast @Nat.lt_log2_self m
  have power : (2 : ℚ) ^ (m.log2 + 1 + 1075) ≤ 10 ^ places :=
    calc (2 : ℚ) ^ (m.log2 + 1 + 1075)
      _ ≤ 2 ^ places := pow_le_pow_right₀ (by norm_num) (by omega)
      _ ≤ 10 ^ places := by gcongr; norm_num
  rw [div_lt_iff₀ (by positivity), zpow_neg, inv_mul_eq_div, lt_div_iff₀ (by positivity)]
  calc (m : ℚ) * 2 ^ (1075 : Int)
    _ < 2 ^ (m.log2 + 1) * 2 ^ (1075 : Int) := by gcongr
    _ = 2 ^ (m.log2 + 1 + 1075) := by
        rw [pow_add _ (m.log2 + 1)]
        rfl
    _ ≤ 10 ^ places := power

/-- What a number is read as: itself, rounded, or zero when it is none or too small for floats. -/
def IsRead (u : UnpackedFloat) (q : ℚ) : Prop :=
  u = .zero .positive ∧ 0 ≤ q ∧ q < 2 ^ (-1075 : Int) ∨ IsRounded u q

theorem isRead_zero : IsRead (.zero .positive) 0 :=
  Or.inl ⟨rfl, le_rfl, by positivity⟩

/-- A whole number is shifted until it has bits enough. -/
theorem isRounded_whole {m : Nat} (positive : 0 < m)
    : IsRounded (roundWithAccuracy .binary64 .positive (m * 2 ^ 53) (-53) .exact) m := by
  have fits
      : -53 ≤ Format.binary64.targetExponent (totalExponent (m * 2 ^ 53) (-53)) := by
    rw [targetExponent_eq, totalExponent, log2_mul_two_pow positive]
    omega
  have value : (m : ℚ) = (m * 2 ^ 53 : Nat) * 2 ^ (-53 : Int) := by
    push_cast
    norm_num [mul_assoc]
  exact ⟨rfl, halves_exact (m * 2 ^ 53), fits, value⟩

theorem isRead_ofScientific (m places : Nat)
    : IsRead (UnpackedFloat.ofScientific .binary64 m (-places)) (m / 10 ^ places) := by
  unfold UnpackedFloat.ofScientific
  split
  next zero => simpa [zero] using isRead_zero
  next nonzero =>
  have positive : 0 < m := Nat.pos_of_ne_zero nonzero
  split
  next large => exact absurd large (by simp)
  next =>
  split
  next many =>
    have many : 2 ^ 11 + m.log2 < places := by
      change -(places : Int) < -(2 ^ 11 + m.log2) at many
      omega
    exact Or.inl ⟨rfl, by positivity, div_ten_pow_lt many⟩
  next =>
  right
  split
  next whole =>
    obtain rfl : places = 0 := by omega
    rw [pow_zero, div_one]
    have shifted : m <<< 53 * 10 ^ 0 = m * 2 ^ 53 := by
      rw [Nat.pow_zero, Nat.mul_one, Nat.shiftLeft_eq]
    have rounded := isRounded_whole positive
    rw [← shifted] at rounded
    exact rounded
  next =>
    have power : 0 < 10 ^ places := Nat.pow_pos (by decide)
    have quotient
        : IsRounded (.div .binary64 (.finite .positive m 0 positive) (.finite .positive _ 0 power))
            (m * 2 ^ (0 : Int) / ((10 ^ places : Nat) * 2 ^ (0 : Int))) :=
      .div positive power
    simpa using quotient

-- -----------------------------------------------------------------------------------------------
-- Numerals

section Operations

variable {x y : Float} {v w : ℚ}

theorem isRead_div (left : Unsigned x) (right : Unsigned y) (denotes : Denotes x v)
    (denotes' : Denotes y w) (nonzero : w ≠ 0)
    : IsRead (.div .binary64 x.toModel.unpack y.toModel.unpack) (v / w) := by
  unfold Denotes at denotes denotes'
  cases right with
  | zero unpacked' =>
      rw [unpacked'] at denotes'
      exact absurd denotes' nonzero
  | positive unpacked' =>
      rw [unpacked'] at denotes' ⊢
      obtain ⟨-, rfl⟩ := denotes'
      cases left with
      | zero unpacked =>
          rw [unpacked] at denotes ⊢
          obtain rfl : v = 0 := denotes
          rw [zero_div]
          exact isRead_zero
      | positive unpacked =>
          rw [unpacked] at denotes ⊢
          obtain ⟨-, rfl⟩ := denotes
          exact Or.inr (.div _ _)

theorem isRead_mul (left : Unsigned x) (right : Unsigned y) (denotes : Denotes x v)
    (denotes' : Denotes y w)
    : IsRead (.mul .binary64 x.toModel.unpack y.toModel.unpack) (v * w) := by
  unfold Denotes at denotes denotes'
  cases left with
  | zero unpacked =>
      rw [unpacked] at denotes ⊢
      obtain rfl : v = 0 := denotes
      rw [zero_mul]
      cases right with
      | zero unpacked' | positive unpacked' =>
          rw [unpacked']
          exact isRead_zero
  | positive unpacked =>
      rw [unpacked] at denotes ⊢
      obtain ⟨canonical, rfl⟩ := denotes
      cases right with
      | zero unpacked' =>
          rw [unpacked'] at denotes' ⊢
          obtain rfl : w = 0 := denotes'
          rw [mul_zero]
          exact isRead_zero
      | positive unpacked' =>
          rw [unpacked'] at denotes' ⊢
          obtain ⟨canonical', rfl⟩ := denotes'
          exact Or.inr (.mul canonical canonical' _ _)

end Operations

theorem unsigned_toUInt64 {n : Nat} (small : n < 2 ^ 53) : Unsigned n.toUInt64.toFloat := by
  refine .of_natCast (denotes_toUInt64 small) ?_
  rintro rfl
  decide

/-- A coefficient with decimal places is read as the number that it stands for. -/
theorem exists_isRead_nearest (coefficient places : Nat)
    : ∃ u,
        (nearest coefficient (-places)).toModel = .pack u
        ∧ IsRead u (coefficient / 10 ^ places) := by
  have size : (-(places : Int)).natAbs = places := by omega
  unfold nearest
  rw [size]
  unfold Float.ofScientific
  split
  next exact =>
    obtain ⟨small, few⟩ := exact
    have inTable : places < Float.exactlyRepresentablePowersOfTen.size := Nat.lt_succ_of_le few
    have whole := denotes_toUInt64 small
    have power := denotes_powerOfTen inTable
    have unsigned := unsigned_toUInt64 small
    have unsigned' := unsigned_of_holdsPowerOfTen (holdsPowerOfTen_get ⟨places, inTable⟩)
    dsimp only
    split
    next => exact ⟨_, rfl, isRead_div unsigned unsigned' whole power (by positivity)⟩
    next notNegative =>
      obtain rfl : places = 0 := by
        rw [decide_eq_true_eq] at notNegative
        omega
      have product := isRead_mul unsigned unsigned' whole power
      rw [pow_zero, mul_one] at product
      rw [pow_zero, div_one]
      exact ⟨_, rfl, product⟩
  next =>
    have exponent
        : (if -(places : Int) < 0 then Int.negOfNat places else Int.ofNat places) = -places := by
      split
      next => exact Int.negOfNat_eq
      next notNegative =>
        obtain rfl : places = 0 := by omega
        rfl
    refine ⟨_, ?_, isRead_ofScientific coefficient places⟩
    simp only [decide_eq_true_eq, exponent]
    rfl

/-- A number is rounded faithfully when it is read. -/
theorem IsRead.exists_faithful {u : UnpackedFloat} {q : ℚ} (read : IsRead u q)
    : ∃ v, HasValue u v ∧ Faithful q v := by
  rcases read with ⟨rfl, nonneg, tiny⟩ | ⟨rfl, halves, fits, rfl⟩
  · have least : (2 : ℚ) ^ (-1075 : Int) < 2 ^ (-1074 : Int) :=
      zpow_lt_zpow_right₀ (by norm_num) (by decide)
    exact ⟨0, rfl, faithful_zero nonneg (tiny.trans least)⟩
  · exact exists_faithful_roundWithAccuracy halves fits .positive

theorem roundsTo_nearest (coefficient places : Nat)
    : RoundsTo (coefficient / 10 ^ places) (nearest coefficient (-places)) := by
  obtain ⟨u, packed, read⟩ := exists_isRead_nearest coefficient places
  obtain ⟨v, value, faithful⟩ := read.exists_faithful
  exact ⟨u, v, packed, value, faithful⟩

theorem IsRead.ne_negativeZero {u : UnpackedFloat} {q : ℚ} (read : IsRead u q)
    : u ≠ .zero .negative := by
  rcases read with ⟨rfl, -, -⟩ | rounded
  · simp
  · exact rounded.ne_negativeZero

/-- No zero that is read has a minus sign. -/
theorem nearest_ne_negativeZero (coefficient places : Nat)
    : nearest coefficient (-places) ≠ -0.0 := by
  obtain ⟨u, packed, read⟩ := exists_isRead_nearest coefficient places
  obtain ⟨v, value, -⟩ := read.exists_faithful
  exact ne_negativeZero_of_pack value read.ne_negativeZero packed

/-- A number in the interval of a float is read as this float. -/
theorem nearest_eq_of_inInterval {x : Float} {m coefficient places : Nat} {e : Int}
    {positive : 0 < m} (unpacked : x.toModel.unpack = .finite .positive m e positive)
    (inside : InInterval m e (coefficient / 10 ^ places))
    : nearest coefficient (-places) = x := by
  obtain ⟨canonical, high⟩ := canonical_of_unpack unpacked
  obtain ⟨u, packed, read⟩ := exists_isRead_nearest coefficient places
  rcases read with ⟨-, -, tiny⟩ | rounded
  · have least : (2 : ℚ) ^ (-1075 : Int) ≤ (m - 1 / 2) * 2 ^ e := by
      have one : (1 : ℚ) ≤ m := by exact_mod_cast positive
      calc (2 : ℚ) ^ (-1075 : Int)
        _ = 1 / 2 * 2 ^ (-1074 : Int) := by
            rw [show (-1074 : Int) = -1075 + 1 by decide, zpow_add_one₀ (by norm_num)]
            ring
        _ ≤ (m - 1 / 2) * 2 ^ e := by
            gcongr
            · linarith
            · linarith
            · norm_num
            · exact canonical.low
    exact absurd (least.trans inside.half_le) tiny.not_ge
  · apply eq_of_unpack
    rw [packed, rounded.eq_finite canonical positive inside,
      unpack_pack_finite canonical high positive, unpacked]

-- -----------------------------------------------------------------------------------------------
-- Plain numerals

/-- The number that a plain numeral writes. -/
def plainNumber (cs : List Char) : ℚ :=
  let whole := cs.takeWhile (· ≠ '.')
  let fraction := (cs.dropWhile (· ≠ '.')).drop 1
  ofDigits (whole ++ fraction) / 10 ^ fraction.length

theorem plainNumber_nonneg (cs : List Char) : 0 ≤ plainNumber cs := by
  unfold plainNumber
  positivity

theorem roundsTo_plainValue (cs : List Char) : RoundsTo (plainNumber cs) (plainValue cs) :=
  roundsTo_nearest _ _

end MeasureSheet.Decimal
