import Mathlib.Algebra.Group.Nat.Defs
import MeasureSheet.Decimal.Shortest

/-! The search for the shortest decimal finds one for every float. Points of a fine grid lie closer
than the ends of the interval, so one of them is inside, and the search comes to such a grid.
-/

namespace MeasureSheet.Decimal

-- -----------------------------------------------------------------------------------------------
-- The interval on a grid

/-- A quarter of the unit `2 ^ exponent` on the grid of `10 ^ place`. -/
def quarter (exponent place : Int) : Nat :=
  Nat.pow 2 (exponent - 2).toNat * Nat.pow 10 (-place).toNat

/-- The distance between two points of the grid. -/
def step (exponent place : Int) : Nat :=
  Nat.pow 2 (2 - exponent).toNat * Nat.pow 10 place.toNat

/-- How many quarters the interval reaches down. -/
def quartersBelow (mantissa : Nat) (exponent : Int) : Nat :=
  if mantissa = Nat.pow 2 52 ∧ -1074 < exponent then 1 else 2

theorem quarter_pos (exponent place : Int) : 0 < quarter exponent place :=
  Nat.mul_pos (Nat.pow_pos (by decide)) (Nat.pow_pos (by decide))

theorem step_pos (exponent place : Int) : 0 < step exponent place :=
  Nat.mul_pos (Nat.pow_pos (by decide)) (Nat.pow_pos (by decide))

theorem quartersBelow_mem (mantissa : Nat) (exponent : Int)
    : 1 ≤ quartersBelow mantissa exponent ∧ quartersBelow mantissa exponent ≤ 2 := by
  unfold quartersBelow
  split <;> decide

/-- Whether a point of the grid rounds to `mantissa * 2 ^ exponent`. -/
def isInside (mantissa : Nat) (exponent place : Int) (n : Nat) : Bool :=
  let low := (4 * mantissa - quartersBelow mantissa exponent) * quarter exponent place
  let high := (4 * mantissa + 2) * quarter exponent place
  let point := n * step exponent place
  if mantissa % 2 = 0 then low ≤ point && point ≤ high else low < point && point < high

/-- The multiplier of the last point of the grid that is not above the number. -/
def floor (mantissa : Nat) (exponent place : Int) : Nat :=
  4 * mantissa * quarter exponent place / step exponent place

-- -----------------------------------------------------------------------------------------------
-- Neighbours on a grid

theorem roundDiv_cases (tie : Tie) (num den : Nat)
    : roundDiv tie num den = num / den ∨ roundDiv tie num den = num / den + 1 := by
  have parity := Nat.mod_two_eq_zero_or_one (num / den)
  unfold roundDiv
  dsimp only
  split
  · exact Or.inl rfl
  split
  · exact Or.inr rfl
  · cases tie with
    | toEven =>
        change num / den + num / den % 2 = _ ∨ num / den + num / den % 2 = _
        omega
    | up => exact Or.inr rfl

variable {tie : Tie} {mantissa : Nat} {exponent place : Int}

/-- The neighbour that is found rounds to the number. -/
theorem isInside_of_neighbour {n : Nat} (found : neighbour tie mantissa exponent place = some n)
    : isInside mantissa exponent place n := by
  unfold neighbour at found
  dsimp only at found
  split at found
  next lower upper =>
    obtain rfl := Option.some.inj found
    rcases roundDiv_cases tie (4 * mantissa * quarter exponent place) (step exponent place) with
      same | same
    · exact (congrArg (isInside mantissa exponent place) same).trans lower
    · exact (congrArg (isInside mantissa exponent place) same).trans upper
  next lower _ => exact Option.some.inj found ▸ lower
  next _ upper => exact Option.some.inj found ▸ upper
  next => cases found

/-- A neighbour is found when the point below the number is inside. -/
theorem exists_neighbour (tie : Tie)
    (inside : isInside mantissa exponent place (floor mantissa exponent place))
    : ∃ n, neighbour tie mantissa exponent place = some n := by
  unfold neighbour
  dsimp only
  split
  next => exact ⟨_, rfl⟩
  next => exact ⟨_, rfl⟩
  next => exact ⟨_, rfl⟩
  next lower _ => exact absurd (lower.symm.trans inside) Bool.false_ne_true

/-- The interval around a positive number lies above zero. -/
theorem pos_of_isInside {n : Nat} (positive : 0 < mantissa)
    (inside : isInside mantissa exponent place n)
    : 0 < n := by
  have below := quartersBelow_mem mantissa exponent
  have low : 0 < (4 * mantissa - quartersBelow mantissa exponent) * quarter exponent place :=
    Nat.mul_pos (by omega) (quarter_pos _ _)
  apply Nat.pos_of_ne_zero
  rintro rfl
  simp only [isInside, Nat.zero_mul] at inside
  split at inside
  · exact Nat.not_le.mpr low (of_decide_eq_true (Bool.and_eq_true_iff.mp inside).1)
  · exact Nat.not_lt_zero _ (of_decide_eq_true (Bool.and_eq_true_iff.mp inside).1)

/-- The points of a grid lie no farther apart than a quarter of the unit `2 ^ exponent`. -/
def FineGrid (exponent place : Int) : Prop :=
  step exponent place ≤ quarter exponent place

instance (exponent place : Int) : Decidable (FineGrid exponent place) :=
  inferInstanceAs (Decidable (_ ≤ _))

/-- On a fine grid the point below a number rounds to it. -/
theorem FineGrid.isInside_floor (fine : FineGrid exponent place) (positive : 0 < mantissa)
    : isInside mantissa exponent place (floor mantissa exponent place) := by
  have below := quartersBelow_mem mantissa exponent
  have low : (4 * mantissa - quartersBelow mantissa exponent) * quarter exponent place
      + quarter exponent place ≤ 4 * mantissa * quarter exponent place := by
    rw [← Nat.succ_mul]
    exact Nat.mul_le_mul_right _ (by omega)
  have high : 4 * mantissa * quarter exponent place
      < (4 * mantissa + 2) * quarter exponent place :=
    Nat.mul_lt_mul_of_pos_right (by omega) (quarter_pos _ _)
  have down : floor mantissa exponent place * step exponent place
      ≤ 4 * mantissa * quarter exponent place :=
    Nat.div_mul_le_self _ _
  have up : 4 * mantissa * quarter exponent place
      < floor mantissa exponent place * step exponent place + step exponent place :=
    Nat.lt_div_mul_add (step_pos _ _)
  unfold FineGrid at fine
  unfold isInside
  dsimp only
  split <;> simp only [Bool.and_eq_true, decide_eq_true_eq] <;> omega

-- -----------------------------------------------------------------------------------------------
-- The search

/-- A search that comes to a fine grid finds a point inside, by induction on its tries. -/
theorem isInside_seek {tries : Nat} (positive : 0 < mantissa)
    (fine : ∃ i < tries, FineGrid exponent (place - i))
    : isInside mantissa exponent (seek tie mantissa exponent tries place).exponent
        (seek tie mantissa exponent tries place).coefficient := by
  induction tries generalizing place with
  | zero =>
      obtain ⟨i, impossible, -⟩ := fine
      omega
  | succ tries ih =>
      unfold seek
      cases found : neighbour tie mantissa exponent place with
      | some n => exact isInside_of_neighbour found
      | none =>
          refine ih ?_
          obtain ⟨i, within, fine⟩ := fine
          cases i with
          | zero =>
              rw [Int.natCast_zero, Int.sub_zero] at fine
              obtain ⟨n, some⟩ := exists_neighbour tie (fine.isInside_floor positive)
              cases found.symm.trans some
          | succ i =>
              refine ⟨i, by omega, ?_⟩
              rwa [show place - 1 - (i : Int) = place - ((i + 1 : Nat) : Int) by omega]

theorem powers_of_exponent {k : Nat} (small : k < 2046)
    : 2 ^ (1076 - k) * 10 ^ (k * 30103 / 100000 - 325)
      ≤ 2 ^ (k - 1076) * 10 ^ (325 - k * 30103 / 100000) := by
  have all
      : (List.range 2046).all fun k =>
          2 ^ (1076 - k) * 10 ^ (k * 30103 / 100000 - 325)
            ≤ 2 ^ (k - 1076) * 10 ^ (325 - k * 30103 / 100000) := by
    decide +kernel
  simpa using List.all_eq_true.mp all k (List.mem_range.mpr small)

/-- For each exponent of a float there is a grid as fine as the floats are. -/
theorem fineGrid_of_exponent (low : -1074 ≤ exponent) (high : exponent ≤ 971)
    : FineGrid exponent ((exponent + 1074) * 30103 / 100000 - 325) := by
  obtain ⟨k, rfl⟩ : ∃ k : Nat, exponent = k - 1074 := ⟨(exponent + 1074).toNat, by omega⟩
  have powers := powers_of_exponent (k := k) (by omega)
  unfold FineGrid step quarter
  rwa [show (2 - ((k : Int) - 1074)).toNat = 1076 - k by omega,
    show ((k : Int) - 1074 - 2).toNat = k - 1076 by omega,
    show (((k : Int) - 1074 + 1074) * 30103 / 100000 - 325).toNat
      = k * 30103 / 100000 - 325 by omega,
    show (-(((k : Int) - 1074 + 1074) * 30103 / 100000 - 325)).toNat
      = 325 - k * 30103 / 100000 by omega]

/-- The shortest decimal of a positive float rounds to it. -/
theorem isInside_shortest (tie : Tie) (positive : 0 < mantissa) (small : mantissa < 2 ^ 53)
    (low : -1074 ≤ exponent) (high : exponent ≤ 971)
    : isInside mantissa exponent (shortest tie mantissa exponent).exponent
        (shortest tie mantissa exponent).coefficient := by
  have bits : mantissa.log2 < 53 := (Nat.log2_lt (by omega)).mpr small
  refine isInside_seek positive
    ⟨((mantissa.log2 + 2 + exponent) * 30103 / 100000 + 1
      - ((exponent + 1074) * 30103 / 100000 - 325)).toNat, by omega, ?_⟩
  rw [Int.toNat_of_nonneg (by omega), Int.sub_sub_self]
  exact fineGrid_of_exponent low high

theorem shortest_coefficient_pos (tie : Tie) (positive : 0 < mantissa) (small : mantissa < 2 ^ 53)
    (low : -1074 ≤ exponent) (high : exponent ≤ 971)
    : 0 < (shortest tie mantissa exponent).coefficient :=
  pos_of_isInside positive (isInside_shortest tie positive small low high)

end MeasureSheet.Decimal
