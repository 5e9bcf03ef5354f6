import MeasureSheet.Proofs.Decimal.Reading
import MeasureSheet.Proofs.Json.FloatTexts

/-! Shortest decimals read back. The text of a float in a message is a plain numeral, unless it has
a sign, and it is read as this float.
-/

namespace MeasureSheet.Decimal

open Float.Model (UnpackedFloat)
open Binary64
open Json (IsDigits isDigits_toDigits isDigits_zero)

-- -----------------------------------------------------------------------------------------------
-- Points of the grid inside the interval of a float

theorem pow_toNat_eq {b : ℚ} (nonzero : b ≠ 0) (k : Int)
    : b ^ k.toNat = b ^ k * b ^ (-k).toNat := by
  rw [← zpow_natCast, ← zpow_natCast, ← zpow_add₀ nonzero]
  congr 1
  omega

/-- Quarters and steps are measured in one scale. -/
theorem exists_scale (exponent place : Int)
    : ∃ scale : ℚ,
        0 < scale
        ∧ (quarter exponent place : ℚ) = 2 ^ (exponent - 2) * scale
        ∧ (step exponent place : ℚ) = 10 ^ place * scale := by
  refine ⟨2 ^ (2 - exponent).toNat * 10 ^ (-place).toNat, by positivity, ?_, ?_⟩
  · have power := pow_toNat_eq (two_ne_zero : (2 : ℚ) ≠ 0) (exponent - 2)
    rw [neg_sub] at power
    rw [quarter, Nat.cast_mul, Nat.pow_eq, Nat.pow_eq, Nat.cast_pow, Nat.cast_pow, ← mul_assoc,
      ← power]
    norm_num
  · have power := pow_toNat_eq (by norm_num : (10 : ℚ) ≠ 0) place
    rw [step, Nat.cast_mul, Nat.pow_eq, Nat.pow_eq, Nat.cast_pow, Nat.cast_pow, mul_left_comm,
      ← power]
    norm_num

/-- Counts in one scale are compared as the numbers that they stand for. -/
theorem scaled_iff {a b : Nat} {x y scale : ℚ} (some : 0 < scale) (left : (a : ℚ) = x * scale)
    (right : (b : ℚ) = y * scale)
    : (a ≤ b ↔ x ≤ y) ∧ (a < b ↔ x < y) := by
  rw [← Nat.cast_le (α := ℚ), ← Nat.cast_lt (α := ℚ), left, right]
  exact ⟨mul_le_mul_iff_of_pos_right some, mul_lt_mul_iff_of_pos_right some⟩

/-- A point of the grid that rounds to a float lies in the interval of this float. -/
theorem inInterval_of_isInside {m n : Nat} {e place : Int} (positive : 0 < m)
    (inside : isInside m e place n)
    : InInterval m e (n * 10 ^ place) := by
  obtain ⟨scale, some, quarter_eq, step_eq⟩ := exists_scale e place
  have power : (2 : ℚ) ^ e = 4 * 2 ^ (e - 2) := by
    rw [zpow_sub₀ (by norm_num)]
    norm_num
    ring
  have below := quartersBelow_mem m e
  have low
      : ((4 * m - quartersBelow m e : Nat) * quarter e place : Nat)
        = (m - quartersBelow m e / 4 : ℚ) * 2 ^ e * scale := by
    rw [Nat.cast_mul, Nat.cast_sub (by omega), quarter_eq, power]
    push_cast
    ring
  have high : ((4 * m + 2) * quarter e place : Nat) = (m + 1 / 2 : ℚ) * 2 ^ e * scale := by
    rw [Nat.cast_mul, quarter_eq, power]
    push_cast
    ring
  have point : (n * step e place : Nat) = (n : ℚ) * 10 ^ place * scale := by
    rw [Nat.cast_mul, step_eq, mul_assoc]
  unfold isInside at inside
  unfold InInterval
  dsimp only at inside ⊢
  split at inside
  next even =>
    rw [Bool.and_eq_true, decide_eq_true_iff, decide_eq_true_iff,
      (scaled_iff some low point).1, (scaled_iff some point high).1] at inside
    rwa [if_pos even]
  next odd =>
    rw [Bool.and_eq_true, decide_eq_true_iff, decide_eq_true_iff,
      (scaled_iff some low point).2, (scaled_iff some point high).2] at inside
    rwa [if_neg odd]

-- -----------------------------------------------------------------------------------------------
-- Digits

theorem ofDigits_append (front back : List Char)
    : ofDigits (front ++ back) = ofDigits front * 10 ^ back.length + ofDigits back := by
  change Nat.ofDigitChars 10 (front ++ back) 0
    = Nat.ofDigitChars 10 front 0 * 10 ^ back.length + Nat.ofDigitChars 10 back 0
  rw [Nat.ofDigitChars_append, Nat.ofDigitChars_eq_ofDigitChars_zero, Nat.mul_comm]

theorem ofDigits_zeros (count : Nat) : ofDigits (List.replicate count '0') = 0 := by
  induction count with
  | zero => rfl
  | succ count ih => exact ih

theorem ofDigits_toDigits (n : Nat) : ofDigits (Nat.toDigits 10 n) = n :=
  Nat.ofDigitChars_toDigits (by decide) (by decide)

-- -----------------------------------------------------------------------------------------------
-- Plain numerals

theorem ne_point_of_isDigit {c : Char} (digit : c.isDigit) : c ≠ '.' := by
  rintro rfl
  exact absurd digit (by decide)

theorem plainNumber_of_whole {digits : List Char} (all : ∀ c ∈ digits, c.isDigit)
    : plainNumber digits = ofDigits digits := by
  have kept : ∀ c ∈ digits, decide (c ≠ '.') = true :=
    fun c member => decide_eq_true (ne_point_of_isDigit (all c member))
  rw [plainNumber, List.takeWhile_eq_self_iff.mpr kept, List.dropWhile_eq_nil_iff.mpr kept]
  simp

theorem plainNumber_of_point {front : List Char} (all : ∀ c ∈ front, c.isDigit) (back : List Char)
    : plainNumber (front ++ '.' :: back) = ofDigits (front ++ back) / 10 ^ back.length := by
  have kept : ∀ c ∈ front, decide (c ≠ '.') = true :=
    fun c member => decide_eq_true (ne_point_of_isDigit (all c member))
  rw [plainNumber, List.takeWhile_append_of_pos kept, List.dropWhile_append_of_pos kept]
  simp

/-- Around digits a point and zeros stand for the power of ten in which the digits count. -/
theorem plainNumber_pointed {digits : List Char} (written : IsDigits digits) (whole : Int)
    : plainNumber (pointed [] digits whole) = ofDigits digits * 10 ^ (whole - digits.length) := by
  have shifted {k : Nat} (size : whole - digits.length = -k)
      : (ofDigits digits : ℚ) / 10 ^ k = ofDigits digits * 10 ^ (whole - digits.length) := by
    rw [size, zpow_neg, zpow_natCast, div_eq_mul_inv]
  unfold pointed
  split
  next long =>
    have size : whole - digits.length = (whole - digits.length).toNat := by omega
    rw [List.append_nil, plainNumber_of_whole (written.append_zeros _).all, ofDigits_append,
      ofDigits_zeros, List.length_replicate, size, zpow_natCast]
    push_cast
    simp
  next short =>
  split
  next inside =>
    rw [plainNumber_of_point (written.take (by omega)).all, List.take_append_drop]
    apply shifted
    rw [List.length_drop]
    omega
  next before =>
    have zeros
        : ofDigits (['0'] ++ (List.replicate (-whole).toNat '0' ++ digits)) = ofDigits digits := by
      rw [ofDigits_append, ofDigits_append, ofDigits_zeros]
      simp [ofDigits]
    change plainNumber (['0'] ++ '.' :: (List.replicate (-whole).toNat '0' ++ digits)) = _
    rw [plainNumber_of_point isDigits_zero.all, zeros]
    apply shifted
    rw [List.length_append, List.length_replicate]
    omega

theorem count_point_eq_zero {digits : List Char} (all : ∀ c ∈ digits, c.isDigit)
    : digits.count '.' = 0 :=
  List.count_eq_zero.mpr fun member => ne_point_of_isDigit (all '.' member) rfl

theorem any_isDigit {digits : List Char} (written : IsDigits digits) : digits.any Char.isDigit := by
  obtain ⟨c, member⟩ := List.exists_mem_of_ne_nil digits written.nonempty
  exact List.any_eq_true.mpr ⟨c, member, written.all c member⟩

theorem isPlain_of_whole {digits : List Char} (written : IsDigits digits) : isPlain digits := by
  have characters : digits.all fun c => c.isDigit || c == '.' :=
    List.all_eq_true.mpr fun c member => by simp [written.all c member]
  rw [isPlain, characters, count_point_eq_zero written.all, any_isDigit written]
  rfl

theorem isPlain_of_point {front back : List Char} (written : IsDigits front)
    (all : ∀ c ∈ back, c.isDigit)
    : isPlain (front ++ '.' :: back) := by
  have characters : (front ++ '.' :: back).all fun c => c.isDigit || c == '.' := by
    refine List.all_eq_true.mpr fun c member => ?_
    rcases List.mem_append.mp member with before | behind
    · simp [written.all c before]
    · rcases List.mem_cons.mp behind with rfl | behind
      · rfl
      · simp [all c behind]
  rw [isPlain, characters, List.count_append, List.count_cons_self, List.any_append,
    count_point_eq_zero written.all, count_point_eq_zero all, any_isDigit written]
  rfl

theorem isPlain_pointed {digits : List Char} (written : IsDigits digits) (whole : Int)
    : isPlain (pointed [] digits whole) := by
  unfold pointed
  split
  next =>
    rw [List.append_nil]
    exact isPlain_of_whole (written.append_zeros _)
  next =>
  split
  next short inside =>
    exact isPlain_of_point (written.take (by omega)) (written.drop (by omega)).all
  next =>
    exact isPlain_of_point isDigits_zero (written.zeros_append _).all

-- -----------------------------------------------------------------------------------------------
-- Floats

/-- The text of a float without a sign is a plain numeral, and it is read as this float. -/
theorem plainValue_chars {x : Float} (unsigned : Unsigned x)
    : isPlain (chars .message x) ∧ plainValue (chars .message x) = x := by
  cases unsigned with
  | zero unpacked =>
      have written : chars .message x = ['0'] := by
        rw [chars, unpacked]
        rfl
      rw [written]
      have zero : plainValue ['0'] = 0.0 := by decide +kernel
      exact ⟨by decide, zero.trans (eq_of_unpack (unpack_zero.trans unpacked.symm))⟩
  | @positive m e positive unpacked =>
      obtain ⟨canonical, high⟩ := canonical_of_unpack unpacked
      have inside := isInside_shortest .up positive canonical.small canonical.low high
      have digits := isDigits_toDigits (shortest .up m e).coefficient
      have written : chars .message x
          = pointed [] (Nat.toDigits 10 (shortest .up m e).coefficient)
              ((Nat.toDigits 10 (shortest .up m e).coefficient).length
                + (shortest .up m e).exponent) := by
        rw [chars, unpacked]
        rfl
      have number := plainNumber_pointed digits
        ((Nat.toDigits 10 (shortest .up m e).coefficient).length + (shortest .up m e).exponent)
      rw [ofDigits_toDigits, add_sub_cancel_left] at number
      rw [written]
      refine ⟨isPlain_pointed digits _, ?_⟩
      have interval := inInterval_of_isInside positive inside
      rw [← number] at interval
      exact nearest_eq_of_inInterval unpacked interval

end MeasureSheet.Decimal
