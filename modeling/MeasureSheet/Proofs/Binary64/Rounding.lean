import MeasureSheet.Proofs.Binary64.Packing

/-! Rounding of numbers to floats. Whatever a float operation computes exactly is rounded without
crossing a number that floats can stand for, so bounds of this kind outlast every operation.
-/

namespace MeasureSheet.Binary64

open Float.Model (Format totalExponent UnpackedFloat)
open Float.Model.UnpackedFloat

-- -----------------------------------------------------------------------------------------------
-- Representable numbers

/-- Numbers that have a mantissa of 53 bits, however large they are. -/
def Representable (b : ℚ) : Prop :=
  ∃ (mantissa : Nat) (exponent : Int),
    mantissa < 2 ^ 53 ∧ -1074 ≤ exponent ∧ |b| = mantissa * 2 ^ exponent

/-- A number and what it is rounded to lie on the same side of every representable number. -/
structure Faithful (exact rounded : ℚ) : Prop where
  above : ∀ b, Representable b → exact ≤ b → rounded ≤ b
  below : ∀ b, Representable b → b ≤ exact → b ≤ rounded

variable {exact rounded x b : ℚ} {m : Nat} {e : Int}

theorem Representable.neg (representable : Representable b) : Representable (-b) := by
  rwa [Representable, abs_neg]

theorem representable_natCast {n : Nat} (small : n < 2 ^ 53) : Representable n :=
  ⟨n, 0, small, by decide, by simp⟩

theorem representable_zero : Representable 0 := by
  exact_mod_cast representable_natCast (by decide : 0 < 2 ^ 53)

namespace Faithful

theorem refl (x : ℚ) : Faithful x x :=
  ⟨fun _ _ le => le, fun _ _ le => le⟩

theorem neg (faithful : Faithful exact rounded) : Faithful (-exact) (-rounded) where
  above b representable le := neg_le.mp (faithful.below (-b) representable.neg (neg_le.mp le))
  below b representable le := le_neg.mp (faithful.above (-b) representable.neg (le_neg.mp le))

/-- Representable bounds outlast rounding. -/
theorem bounded (faithful : Faithful exact rounded) (representable : Representable b)
    (le : |exact| ≤ b)
    : |rounded| ≤ b := by
  obtain ⟨below, above⟩ := abs_le.mp le
  exact abs_le.mpr
    ⟨faithful.below (-b) representable.neg below, faithful.above b representable above⟩

/-- What a number is rounded to is as large as every representable number that it reaches. -/
theorem reaches (faithful : Faithful exact rounded) (representable : Representable b)
    (le : b ≤ |exact|)
    : b ≤ |rounded| := by
  rcases le_abs.mp le with le | le
  · exact (faithful.below b representable le).trans (le_abs_self rounded)
  · exact (faithful.neg.below b representable le).trans (neg_le_abs rounded)

theorem eq_of_representable (faithful : Faithful exact rounded)
    (representable : Representable exact)
    : rounded = exact :=
  le_antisymm (faithful.above exact representable le_rfl)
    (faithful.below exact representable le_rfl)

end Faithful

/-- A number is a whole multiple of every power of two up to its own. -/
theorem mantissa_mul_two_pow {e' : Int} (le : e' ≤ e)
    : (m : ℚ) * 2 ^ e = (m * 2 ^ (e - e').toNat : Nat) * 2 ^ e' := by
  have split : (2 : ℚ) ^ e = 2 ^ ((e - e').toNat : Int) * 2 ^ e' := by
    rw [← zpow_add₀ (by norm_num)]
    congr 1
    omega
  rw [split, zpow_natCast]
  push_cast
  rw [mul_assoc]

/-- All representable numbers are whole multiples of the least one. -/
theorem Representable.exists_multiple (representable : Representable b)
    : ∃ n : Nat, |b| = n * 2 ^ (-1074 : Int) := by
  obtain ⟨m, e, -, low, value⟩ := representable
  exact ⟨_, value.trans (mantissa_mul_two_pow low)⟩

/-- A mantissa of 53 bits stays below a full one of any higher exponent. -/
theorem mantissa_mul_two_pow_lt {e' : Int} (small : m < 2 ^ 53) (lower : e < e')
    : (m : ℚ) * 2 ^ e < 2 ^ 52 * 2 ^ e' := by
  have small : (m : ℚ) < 2 ^ 53 := by exact_mod_cast small
  calc (m : ℚ) * 2 ^ e
    _ < 2 ^ 53 * 2 ^ e := by gcongr
    _ = 2 ^ 52 * 2 ^ (e + 1) := by
        rw [zpow_add_one₀ (by norm_num)]
        ring
    _ ≤ 2 ^ 52 * 2 ^ e' := by
        gcongr
        · norm_num
        · omega

/-- Rounding to a multiple of a power of two is faithful when the mantissa is full: representable
numbers are multiples themselves, or smaller than all that have a full mantissa.
-/
theorem faithful_mul_two_pow {r : Nat} (nonneg : 0 ≤ x) (above : ∀ n : Nat, x ≤ n → r ≤ n)
    (below : ∀ n : Nat, n ≤ x → n ≤ r) (full : 2 ^ 52 ≤ x ∨ e = -1074)
    : Faithful (x * 2 ^ e) (r * 2 ^ e) := by
  have power : (0 : ℚ) < 2 ^ e := by positivity
  have multiple {b : ℚ} (nonneg : 0 ≤ b) (representable : Representable b)
      : (∃ n : Nat, b = n * 2 ^ e) ∨ b < 2 ^ 52 * 2 ^ e ∧ e ≠ -1074 := by
    obtain ⟨m, e', small, low, value⟩ := representable
    rw [abs_of_nonneg nonneg] at value
    by_cases le : e ≤ e'
    · exact Or.inl ⟨_, value.trans (mantissa_mul_two_pow le)⟩
    · exact Or.inr ⟨value ▸ mantissa_mul_two_pow_lt small (by omega), by omega⟩
  constructor
  · intro b representable le
    rcases multiple ((mul_nonneg nonneg power.le).trans le) representable with
      ⟨n, rfl⟩ | ⟨less, high⟩
    · have bound := above n (le_of_mul_le_mul_right le power)
      gcongr
    · have full := full.resolve_right high
      have bound : 2 ^ 52 * 2 ^ e ≤ x * 2 ^ e := by gcongr
      linarith
  · intro b representable le
    by_cases sign : 0 ≤ b
    · rcases multiple sign representable with ⟨n, rfl⟩ | ⟨less, high⟩
      · have bound := below n (le_of_mul_le_mul_right le power)
        gcongr
      · have full : 2 ^ 52 ≤ r := below (2 ^ 52) (by exact_mod_cast full.resolve_right high)
        have bound : (2 : ℚ) ^ 52 * 2 ^ e ≤ r * 2 ^ e := by
          gcongr
          exact_mod_cast full
        linarith
    · have bound : (0 : ℚ) ≤ r * 2 ^ e := by positivity
      linarith

-- -----------------------------------------------------------------------------------------------
-- Mantissas that are cut off

/-- The whole number is nearest to the number, and even when another one is as near. -/
structure IsNearest (r : Nat) (x : ℚ) : Prop where
  near : |x - r| ≤ 1 / 2
  even : |x - r| = 1 / 2 → r % 2 = 0

namespace IsNearest

variable {m n r : Nat}

theorem of_near (near : |x - r| < 1 / 2) : IsNearest r x :=
  ⟨near.le, fun tie => absurd tie near.ne⟩

/-- The nearest whole number does not lie beyond another one. -/
theorem le_of_le (nearest : IsNearest r x) (le : x ≤ n) : r ≤ n := by
  by_contra beyond
  have next : (n : ℚ) + 1 ≤ r := by exact_mod_cast not_le.mp beyond
  have near := (abs_le.mp nearest.near).1
  linarith

theorem le_of_ge (nearest : IsNearest r x) (ge : n ≤ x) : n ≤ r := by
  by_contra beyond
  have next : (r : ℚ) + 1 ≤ n := by exact_mod_cast not_le.mp beyond
  have near := (abs_le.mp nearest.near).2
  linarith

/-- Of two whole numbers in a row one is odd, so that only one is nearest. -/
theorem le (nearest : IsNearest m x) (nearest' : IsNearest n x) : m ≤ n := by
  by_contra greater
  obtain ⟨above, below⟩ := abs_le.mp nearest.near
  obtain ⟨above', below'⟩ := abs_le.mp nearest'.near
  have next : (n : ℚ) + 1 ≤ m := by exact_mod_cast not_le.mp greater
  have even := nearest.even (by rw [abs_of_nonpos] <;> linarith)
  have even' := nearest'.even (by rw [abs_of_nonneg] <;> linarith)
  have close : (m : ℚ) ≤ n + 1 := by linarith
  have close : m ≤ n + 1 := by exact_mod_cast close
  omega

theorem unique (nearest : IsNearest m x) (nearest' : IsNearest n x) : m = n :=
  le_antisymm (nearest.le nearest') (nearest'.le nearest)

end IsNearest

/-- The two bits behind a mantissa tell how what was cut off compares with a half. -/
def Halves (em : ExtendedMantissa) (x : ℚ) : Prop :=
  match em.roundBit, em.stickyBit with
  | false, false => x = em.mantissa
  | false, true => em.mantissa < x ∧ x < em.mantissa + 1 / 2
  | true, false => x = em.mantissa + 1 / 2
  | true, true => em.mantissa + 1 / 2 < x ∧ x < em.mantissa + 1

theorem halves_exact (m : Nat) : Halves (.ofMantissaAndAccuracy m .exact) m :=
  rfl

theorem mantissa_ofMantissaAndAccuracy (m : Nat) (accuracy : Accuracy)
    : (ExtendedMantissa.ofMantissaAndAccuracy m accuracy).mantissa = m := by
  cases accuracy with
  | exact => rfl
  | inexact order => cases order <;> rfl

theorem mantissa_shiftRight (em : ExtendedMantissa) (n : Nat)
    : (em >>> n).mantissa = em.mantissa / 2 ^ n := by
  change (n.repeat ExtendedMantissa.shiftRightOne em).mantissa = _
  induction n with
  | zero => simp [Nat.repeat]
  | succ n ih =>
      rw [Nat.repeat, ExtendedMantissa.shiftRightOne, ih, Nat.div_div_eq_div_mul, ← Nat.pow_succ]

namespace Halves

variable {em : ExtendedMantissa}

theorem floor (halves : Halves em x) : em.mantissa ≤ x ∧ x < em.mantissa + 1 := by
  obtain ⟨m, roundBit, stickyBit⟩ := em
  cases roundBit <;> cases stickyBit <;> simp only [Halves] at halves ⊢ <;> constructor <;> linarith

/-- Half of a number has its two bits from the last bit of the mantissa and from both behind it. -/
theorem shiftRightOne (halves : Halves em x) : Halves em.shiftRightOne (x / 2) := by
  obtain ⟨m, roundBit, stickyBit⟩ := em
  have whole : (m : ℚ) = 2 * (m / 2 : Nat) + (m % 2 : Nat) := by
    exact_mod_cast (Nat.div_add_mod m 2).symm
  rcases Nat.mod_two_eq_zero_or_one m with bit | bit
    <;> rw [bit] at whole
    <;> cases roundBit
    <;> cases stickyBit
    <;> simp only [Halves, ExtendedMantissa.shiftRightOne, bit] at halves ⊢
    <;> push_cast at whole
    <;> simp
    <;> first | linarith | constructor <;> linarith

theorem shiftRight (halves : Halves em x) (n : Nat) : Halves (em >>> n) (x / 2 ^ n) := by
  change Halves (n.repeat ExtendedMantissa.shiftRightOne em) _
  induction n with
  | zero => simpa [Nat.repeat] using halves
  | succ n ih =>
      rw [Nat.repeat, pow_succ, ← div_div]
      exact ih.shiftRightOne

/-- Ties are rounded to even mantissas. -/
theorem isNearest_roundedMantissa (halves : Halves em x) : IsNearest em.roundedMantissa x := by
  obtain ⟨m, roundBit, stickyBit⟩ := em
  match roundBit, stickyBit, halves with
  | false, false, whole =>
      change x = m at whole
      change IsNearest m x
      exact .of_near (by rw [whole]; norm_num)
  | false, true, ⟨above, below⟩ =>
      change (m : ℚ) < x at above
      change x < m + 1 / 2 at below
      change IsNearest m x
      exact .of_near (abs_lt.mpr ⟨by linarith, by linarith⟩)
  | true, false, tie =>
      change x = m + 1 / 2 at tie
      change IsNearest (m + m % 2) x
      refine ⟨?_, fun _ => by omega⟩
      rcases Nat.mod_two_eq_zero_or_one m with even | odd
      · rw [tie, even, add_zero, add_sub_cancel_left]
        norm_num
      · rw [tie, odd]
        push_cast
        rw [add_sub_add_left_eq_sub]
        norm_num
  | true, true, ⟨above, below⟩ =>
      change (m : ℚ) + 1 / 2 < x at above
      change x < m + 1 at below
      change IsNearest (m + 1) x
      refine .of_near (abs_lt.mpr ⟨?_, ?_⟩) <;> push_cast <;> linarith

end Halves

-- -----------------------------------------------------------------------------------------------
-- Shifts

theorem targetExponent_eq (total : Int)
    : Format.binary64.targetExponent total = max (total - 53) (-1074) :=
  rfl

/-- The first shift leaves a canonical mantissa, unless the exponent is too large for one. -/
theorem exists_shift (accuracy : Accuracy)
    (fits : e ≤ Format.binary64.targetExponent (totalExponent m e))
    : ∃ n : Nat,
        shiftToTargetExponent .binary64 m e accuracy
          = (ExtendedMantissa.ofMantissaAndAccuracy m accuracy >>> n, e + n)
        ∧ Canonical (m / 2 ^ n) (e + n) := by
  rw [targetExponent_eq] at fits
  refine ⟨(max (totalExponent m e - 53) (-1074) - e).toNat, rfl, ?_⟩
  unfold totalExponent at *
  generalize shift : (max ((m.log2 : Int) + 1 + e - 53) (-1074) - e).toNat = n
  constructor
  · rw [Nat.div_lt_iff_lt_mul (Nat.two_pow_pos n), ← Nat.pow_add]
    exact Nat.lt_log2_self.trans_le (Nat.pow_le_pow_right (by decide) (by omega))
  · omega
  · by_cases least : e + n = -1074
    · exact Or.inr least
    · left
      have length : m.log2 = 52 + n := by omega
      have positive : m ≠ 0 := by
        rintro rfl
        exact absurd length (by simp; omega)
      rw [Nat.le_div_iff_mul_le (Nat.two_pow_pos n), ← Nat.pow_add, ← length]
      exact Nat.log2_self_le positive

/-- The second shift is for a mantissa that was rounded up to one bit more. -/
theorem shift_roundedMantissa (atMost : m ≤ 2 ^ 53) (low : -1074 ≤ e)
    : shiftToTargetExponent .binary64 m e .exact
      = if m < 2 ^ 53 then (.ofMantissaAndAccuracy m .exact, e)
        else (.ofMantissaAndAccuracy (2 ^ 52) .exact, e + 1) := by
  unfold shiftToTargetExponent
  rw [targetExponent_eq]
  split
  next less =>
    have length : m.log2 ≤ 52 := by
      by_cases zero : m = 0
      · simp [zero]
      · exact Nat.lt_succ_iff.mp ((Nat.log2_lt zero).mpr less)
    have none : (max (totalExponent m e - 53) (-1074) - e).toNat = 0 := by
      unfold totalExponent
      omega
    simp only [shiftToExponent, none]
    simp [HShiftRight.hShiftRight, Nat.repeat]
  next notLess =>
    obtain rfl : m = 2 ^ 53 := by omega
    have one : (max (totalExponent (2 ^ 53) e - 53) (-1074) - e).toNat = 1 := by
      unfold totalExponent
      rw [Nat.log2_two_pow]
      omega
    simp only [shiftToExponent, one]
    rfl

-- -----------------------------------------------------------------------------------------------
-- Rounding

def withSign : Sign → ℚ → ℚ
  | .positive, x => x
  | .negative, x => -x

/-- A finite float in its canonical form stands for a number. -/
def HasValue : UnpackedFloat → ℚ → Prop
  | .zero _, v => v = 0
  | .finite sign m e _, v => Canonical m e ∧ v = withSign sign (m * 2 ^ e)
  | .infinity _, _ => False
  | .notANumber, _ => False

theorem Faithful.withSign (faithful : Faithful exact rounded) (sign : Sign)
    : Faithful (withSign sign exact) (withSign sign rounded) := by
  cases sign with
  | positive => exact faithful
  | negative => exact faithful.neg

/-- A number over a power of two lies between a canonical mantissa and the next one. -/
structure CutOff (q : ℚ) (floor : Nat) (e : Int) (y : ℚ) : Prop where
  value : q = y * 2 ^ e
  canonical : Canonical floor e
  above : floor ≤ y
  below : y < floor + 1

/-- The three forms that a rounded mantissa takes. -/
inductive HasForm (sign : Sign) (r : Nat) (e : Int) : UnpackedFloat → Prop where
  | zero (none : r = 0) : HasForm sign r e (.zero sign)
  | finite (positive : 0 < r) (small : r < 2 ^ 53) : HasForm sign r e (.finite sign r e positive)
  | carry (full : r = 2 ^ 53) : HasForm sign r e (.finite sign (2 ^ 52) (e + 1) (by decide))

/-- Rounding in two shifts, when no bits are missing. The first one brings the number to a full
mantissa or the least exponent, where it is rounded, and the second one changes its form only.
-/
theorem exists_nearest_roundWithAccuracy {accuracy : Accuracy}
    (halves : Halves (.ofMantissaAndAccuracy m accuracy) x)
    (fits : e ≤ Format.binary64.targetExponent (totalExponent m e)) (sign : Sign)
    : ∃ floor t y r,
        CutOff (x * 2 ^ e) floor t y
        ∧ IsNearest r y
        ∧ HasForm sign r t (roundWithAccuracy .binary64 sign m e accuracy) := by
  obtain ⟨n, shift, canonical⟩ := exists_shift accuracy fits
  have halves := halves.shiftRight n
  have floor := mantissa_shiftRight (.ofMantissaAndAccuracy m accuracy) n
  unfold roundWithAccuracy
  rw [shift]
  generalize ExtendedMantissa.ofMantissaAndAccuracy m accuracy >>> n = em at halves floor
  rw [mantissa_ofMantissaAndAccuracy] at floor
  rw [← floor] at canonical
  have nearest := halves.isNearest_roundedMantissa
  have shifted : x * 2 ^ e = x / 2 ^ n * 2 ^ (e + n) := by
    rw [zpow_add₀ (by norm_num), zpow_natCast]
    field_simp
  refine ⟨em.mantissa, e + n, x / 2 ^ n, em.roundedMantissa,
    ⟨shifted, canonical, halves.floor.1, halves.floor.2⟩, nearest, ?_⟩
  have next : em.roundedMantissa ≤ em.mantissa + 1 :=
    nearest.le_of_le (by exact_mod_cast halves.floor.2.le)
  have atMost : em.roundedMantissa ≤ 2 ^ 53 := next.trans canonical.small
  dsimp only
  rw [shift_roundedMantissa atMost canonical.low]
  by_cases less : em.roundedMantissa < 2 ^ 53
  · simp only [if_pos less, mantissa_ofMantissaAndAccuracy]
    split
    next none => exact .zero none
    next some => exact .finite (Nat.pos_of_ne_zero some) less
  · simp only [if_neg less, mantissa_ofMantissaAndAccuracy]
    exact .carry (le_antisymm atMost (not_lt.mp less))

/-- Rounding to the nearest mantissa is faithful. -/
theorem exists_faithful_roundWithAccuracy {accuracy : Accuracy}
    (halves : Halves (.ofMantissaAndAccuracy m accuracy) x)
    (fits : e ≤ Format.binary64.targetExponent (totalExponent m e)) (sign : Sign)
    : ∃ v,
        HasValue (roundWithAccuracy .binary64 sign m e accuracy) v
        ∧ Faithful (withSign sign (x * 2 ^ e)) v := by
  obtain ⟨floor, t, y, r, cutOff, nearest, form⟩ :=
    exists_nearest_roundWithAccuracy halves fits sign
  obtain ⟨value, canonical, above, below⟩ := cutOff
  have nonneg : 0 ≤ y := le_trans (by positivity) above
  have full : 2 ^ 52 ≤ y ∨ t = -1074 :=
    canonical.full.imp_left fun full => le_trans (by exact_mod_cast full) above
  have faithful := faithful_mul_two_pow nonneg (fun n le => nearest.le_of_le le)
    (fun n ge => nearest.le_of_ge ge) full
  rw [value]
  refine ⟨_, ?_, faithful.withSign sign⟩
  have reaches : floor ≤ r := nearest.le_of_ge above
  generalize roundWithAccuracy .binary64 sign m e accuracy = u at form
  cases form with
  | zero none => cases sign <;> simp [HasValue, none, Binary64.withSign]
  | finite positive small =>
      exact ⟨⟨small, canonical.low, canonical.full.imp_left fun full => full.trans reaches⟩, rfl⟩
  | carry full =>
      have low := canonical.low
      refine ⟨⟨by norm_num, by omega, Or.inl le_rfl⟩, ?_⟩
      rw [full, zpow_add_one₀ (by norm_num)]
      congr 1
      push_cast
      ring

theorem log2_mul_two_pow (positive : 0 < m) (n : Nat) : (m * 2 ^ n).log2 = m.log2 + n := by
  induction n with
  | zero => simp
  | succ n ih =>
      have nonzero : m * 2 ^ n ≠ 0 := (Nat.mul_pos positive (Nat.two_pow_pos n)).ne'
      rw [Nat.pow_succ, ← Nat.mul_assoc, Nat.mul_comm _ 2, Nat.log2_two_mul nonzero, ih,
        Nat.add_assoc]

/-- A mantissa with too few bits is filled up with zeros before it is rounded. -/
theorem exists_faithful_round (positive : 0 < m) (e : Int) (sign : Sign)
    : ∃ v,
        HasValue (UnpackedFloat.round .binary64 sign m e) v
        ∧ Faithful (withSign sign (m * 2 ^ e)) v := by
  unfold UnpackedFloat.round
  generalize target : Format.binary64.targetExponent (totalExponent m e) = t
  simp only [decreaseExponent, Nat.shiftLeft_eq]
  by_cases le : t ≤ e
  · have exponent : e - ((e - t).toNat : Int) = t := by omega
    have total : totalExponent (m * 2 ^ (e - t).toNat) t = totalExponent m e := by
      have length := log2_mul_two_pow positive (e - t).toNat
      unfold totalExponent
      omega
    rw [exponent, mantissa_mul_two_pow le]
    exact exists_faithful_roundWithAccuracy (halves_exact _) (by rw [total, target]) sign
  · have none : (e - t).toNat = 0 := by omega
    simp only [none, pow_zero, mul_one, Nat.cast_zero, sub_zero]
    exact exists_faithful_roundWithAccuracy (halves_exact _) (by omega) sign

theorem exists_faithful_normalize (n : Int) (e : Int) (zeroSign : Sign)
    : ∃ v,
        HasValue (UnpackedFloat.normalize .binary64 n e zeroSign) v
        ∧ Faithful (n * 2 ^ e) v := by
  have size (k : Int) (nonneg : 0 ≤ k) : ((k.toNat : Nat) : ℚ) = k := by
    rw [← Int.cast_natCast, Int.toNat_of_nonneg nonneg]
  unfold UnpackedFloat.normalize
  rcases lt_trichotomy n 0 with negative | rfl | positive
  · rw [compare_lt_iff_lt.mpr negative]
    have value : (n : ℚ) * 2 ^ e = withSign .negative ((-n).toNat * 2 ^ e) := by
      rw [size (-n) (by omega), withSign, Int.cast_neg, neg_mul, neg_neg]
    rw [value]
    exact exists_faithful_round (by omega) e .negative
  · exact ⟨0, rfl, by simpa using Faithful.refl 0⟩
  · rw [compare_gt_iff_gt.mpr positive]
    have value : (n : ℚ) * 2 ^ e = withSign .positive (n.toNat * 2 ^ e) := by
      rw [size n (by omega), withSign]
    rw [value]
    exact exists_faithful_round (by omega) e .positive

end MeasureSheet.Binary64
