import MeasureSheet.Json.Quoted

/-! Quoted strings read back. Each character is written as one unit, which is the character itself
or the code of one below the surrogates, so reading a quoted string gives the string for every text
that follows it.
-/

namespace MeasureSheet.Json

/-- A token that was read without a fault. -/
def Token.of {α : Type} (a : α) : Token α where
  value := .ok a
  obstacle := none

theorem hexValue?_hexDigit : ∀ n < 16, hexValue? (hexDigit n) = some n := by
  decide

/-- Two hexadecimal digits behind two zeros write every number below 256. -/
theorem hexCode?_hexDigits {n : Nat} (small : n < 256)
    : hexCode? '0' '0' (hexDigit (n / 16)) (hexDigit (n % 16)) = some n := by
  have zero : hexValue? '0' = some 0 := by decide
  have high := hexValue?_hexDigit (n / 16) (by omega)
  have low := hexValue?_hexDigit (n % 16) (by omega)
  simp only [hexCode?, zero, high, low, bind, Option.bind, pure, Option.some.injEq]
  omega

/-- The unit stands for the character: as itself, or as the code of a control character. -/
inductive StringUnit.StandsFor (c : Char) : StringUnit → Prop where
  | itself : StandsFor c (.char c)
  | control (small : c.toNat < 0x20) : StandsFor c (.code c.toNat)

/-- A character in quotes is read as one unit that stands for it, whatever follows. -/
theorem splitUnits_escapeChar (c : Char) (rest : List Char)
    : ∃ unit : StringUnit,
        unit.StandsFor c
        ∧ splitUnits (escapeChar c ++ rest)
          = (unit :: (splitUnits rest).1, (splitUnits rest).2) := by
  unfold escapeChar
  iterate 7
    split
    next same => exact ⟨_, .itself, by subst same; rfl⟩
  split
  next small =>
    refine ⟨_, .control small, ?_⟩
    simp [splitUnits, hexCode?_hexDigits (show c.toNat < 256 by omega)]
  next quote slash _ _ _ _ _ large =>
    refine ⟨_, .itself, ?_⟩
    rw [List.singleton_append, splitUnits.eq_def]
    simp [quote, slash, large]

/-- A unit that stands for a character is joined to the others as this character. -/
theorem joinUnits_cons {c : Char} {unit : StringUnit} (standsFor : unit.StandsFor c)
    (ending : Option Fault) (units : List StringUnit)
    : joinUnits ending (unit :: units) = (joinUnits ending units).map (c :: ·) := by
  cases standsFor with
  | itself => rfl
  | control small =>
      have leading : isLeadingSurrogate c.toNat = false := by simp [isLeadingSurrogate]; omega
      have trailing : isTrailingSurrogate c.toNat = false := by simp [isTrailingSurrogate]; omega
      rw [joinUnits.eq_def]
      simp [leading, trailing, Char.ofNat_toNat]

/-- A quoted string is read to its closing quote as the units of its characters. -/
theorem splitUnits_quoted (cs rest : List Char)
    : ∃ units,
        splitUnits (cs.flatMap escapeChar ++ '"' :: rest) = (units, .ok rest)
        ∧ joinUnits none units = .ok cs := by
  induction cs with
  | nil => exact ⟨[], by rw [List.flatMap_nil, List.nil_append, splitUnits.eq_def]; rfl, rfl⟩
  | cons c cs ih =>
      obtain ⟨units, read, joined⟩ := ih
      obtain ⟨unit, standsFor, first⟩ :=
        splitUnits_escapeChar c (cs.flatMap escapeChar ++ '"' :: rest)
      refine ⟨unit :: units, ?_, ?_⟩
      · rw [List.flatMap_cons, List.append_assoc, first, read]
      · rw [joinUnits_cons standsFor, joined]
        rfl

/-- Reading a quoted string behind its first quote gives the string and what follows it. -/
theorem splitString_quoted (cs rest : List Char)
    : splitString (cs.flatMap escapeChar ++ '"' :: rest) = (.of cs, some rest) := by
  obtain ⟨units, read, joined⟩ := splitUnits_quoted cs rest
  rw [splitString, read]
  simp only [joined, Token.of]

end MeasureSheet.Json
