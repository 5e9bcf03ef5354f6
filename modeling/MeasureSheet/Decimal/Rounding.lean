/-! Rounding to whole numbers: quotients of naturals, and floats. -/

namespace MeasureSheet.Decimal

/-- Where a value halfway between two neighbours goes. -/
inductive Tie where
  | toEven
  | up
deriving DecidableEq, Repr

/-- The whole number nearest to `num / den`. -/
def roundDiv (tie : Tie) (num den : Nat) : Nat :=
  let quotient := num / den
  let rest := num % den
  if 2 * rest < den then quotient
  else if den < 2 * rest then quotient + 1
  else
    match tie with
    | .toEven => quotient + quotient % 2
    | .up => quotient + 1

/-- A rounded quotient is within half a unit of the quotient. -/
theorem roundDiv_near (tie : Tie) (num : Nat) {den : Nat} (h : 0 < den)
    : 2 * (roundDiv tie num den * den) ≤ 2 * num + den
        ∧ 2 * num ≤ 2 * (roundDiv tie num den * den) + den := by
  have hDiv : num / den * den + num % den = num := by
    rw [Nat.mul_comm]; exact Nat.div_add_mod num den
  have hMod := Nat.mod_lt num h
  have hEven : num / den % 2 = 0 ∨ num / den % 2 = 1 := by omega
  unfold roundDiv
  dsimp only
  split
  · omega
  · split
    · rw [Nat.add_mul]; omega
    · cases tie
      · rcases hEven with h0 | h1
        · simp only [h0, Nat.add_zero]; omega
        · simp only [h1, Nat.add_mul]; omega
      · simp only [Nat.add_mul]; omega

/-- The whole float nearest to a float, halves going away from zero. Floats without a fraction, the
infinities and NaN are returned as they are, and the sign is kept when the result is zero.
-/
def roundFloat (x : Float) : Float :=
  match x.toModel.unpack with
  | .finite sign mantissa exponent _ =>
      if 0 ≤ exponent then x
      else
        let whole := Float.ofNat (roundDiv .up mantissa (Nat.pow 2 (-exponent).toNat))
        match sign with
        | .positive => whole
        | .negative => -whole
  | _ => x

end MeasureSheet.Decimal
