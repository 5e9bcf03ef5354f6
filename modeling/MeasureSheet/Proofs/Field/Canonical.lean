import MeasureSheet.Field

/-! Canonical names stay as they are: the name of a field names that field. -/

namespace MeasureSheet

/-- Where the characters of names stand among the ASCII characters. -/
theorem toNat_of_isNameChar {c : Char} (name : isNameChar c)
    : 48 ≤ c.toNat ∧ c.toNat ≤ 57 ∨ c.toNat = 95 ∨ 97 ≤ c.toNat ∧ c.toNat ≤ 122 := by
  change
    ((decide (97 ≤ c.val) && decide (c.val ≤ 122) || decide (48 ≤ c.val) && decide (c.val ≤ 57))
      || c == '_') = true at name
  simp only [Bool.or_eq_true, Bool.and_eq_true, decide_eq_true_eq, beq_iff_eq,
    UInt32.le_iff_toNat_le] at name
  rcases name with (lower | digit) | rfl
  · exact Or.inr (Or.inr lower)
  · exact Or.inl digit
  · exact Or.inr (Or.inl rfl)

theorem isBlank_of_isNameChar {c : Char} (name : isNameChar c) : Text.isBlank c = false := by
  have range := toNat_of_isNameChar name
  simp only [Text.isBlank, Text.blankRanges, List.any_cons, List.any_nil, Bool.or_false,
    Bool.or_eq_false_iff, Bool.and_eq_false_iff, decide_eq_false_iff_not]
  omega

theorem isUpper_eq_false {c : Char} (noCapital : c.toNat < 65 ∨ 90 < c.toNat)
    : c.isUpper = false := by
  change decide (65 ≤ c.val ∧ c.val ≤ 90) = false
  rw [decide_eq_false_iff_not, UInt32.le_iff_toNat_le, UInt32.le_iff_toNat_le]
  change ¬ (65 ≤ c.toNat ∧ c.toNat ≤ 90)
  omega

/-- A character that no letter comes from is spelled with an underscore. -/
theorem spell_of_noLetter {c : Char} (noCapital : c.toNat < 65 ∨ 90 < c.toNat)
    (noName : isNameChar c = false) (kelvin : c ≠ '\u212A') (dotted : c ≠ '\u0130')
    : spell c = ['_'] := by
  have other : (c.isLower || c.isDigit) = false := (Bool.or_eq_false_iff.mp noName).1
  simp [spell, isUpper_eq_false noCapital, other, kelvin, dotted]

theorem spell_of_isNameChar {c : Char} (name : isNameChar c) : spell c = [c] := by
  have range := toNat_of_isNameChar name
  have upper : c.isUpper = false := isUpper_eq_false (by omega)
  unfold spell
  rw [if_neg (by simp [upper])]
  split
  · rfl
  next other =>
    obtain rfl : c = '_' := by
      simpa [isNameChar, other] using name
    rfl

theorem flatMap_spell {cs : List Char} (name : ∀ c ∈ cs, isNameChar c)
    : cs.flatMap spell = cs := by
  induction cs with
  | nil => rfl
  | cons c cs ih =>
      rw [List.flatMap_cons, spell_of_isNameChar (name c List.mem_cons_self),
        ih fun d member => name d (List.mem_cons_of_mem c member), List.singleton_append]

/-- Only a digit is spelled with a digit. -/
theorem eq_of_mem_spell {c d : Char} (member : d ∈ spell c) (digit : d.isDigit) : d = c := by
  unfold spell at member
  split at member
  next upper =>
    obtain rfl : d = c.toLower := by simpa using member
    have range : 'A'.val ≤ c.val ∧ c.val ≤ 'Z'.val := of_decide_eq_true upper
    have lower : c.toLower.val = c.val + ('a'.val - 'A'.val) := congrArg Char.val (dif_pos range)
    have most : c.toLower.val ≤ '9'.val := of_decide_eq_true (Bool.and_eq_true_iff.mp digit).2
    rw [lower] at most
    simp only [UInt32.le_iff_toNat_le, UInt32.toNat_add] at range most
    simp at range most
    omega
  next =>
  split at member
  next => simpa using member
  next =>
    exfalso
    split at member
    · obtain rfl : d = 'k' := by simpa using member
      exact absurd digit (by decide)
    split at member
    · rcases (by simpa using member : d = 'i' ∨ d = '_') with rfl | rfl
        <;> exact absurd digit (by decide)
    · obtain rfl : d = '_' := by simpa using member
      exact absurd digit (by decide)

/-- A text in which no character is blank has no blanks at its ends. -/
theorem trim_of_solid {cs : List Char} (solid : ∀ c ∈ cs, Text.isBlank c = false)
    : Text.trim cs = cs := by
  have kept {cs : List Char} (solid : ∀ c ∈ cs, Text.isBlank c = false)
      : cs.dropWhile Text.isBlank = cs := by
    cases cs with
    | nil => rfl
    | cons c cs => exact List.dropWhile_cons_of_neg (by simp [solid c List.mem_cons_self])
  rw [Text.trim, kept solid, kept, List.reverse_reverse]
  exact fun c member => solid c (List.mem_reverse.mp member)

theorem collapse_of_singleUnderscores {cs : List Char} (single : SingleUnderscores cs)
    : collapse cs = cs := by
  induction cs with
  | nil => rfl
  | cons c cs ih => rw [collapse, if_neg single.1, ih single.2]

/-- A canonical name is its own canonical form. -/
theorem CanonicalName.canonicalChars_eq {cs : List Char} (canonical : CanonicalName cs)
    : canonicalChars cs = cs := by
  have solid : ∀ c ∈ cs, Text.isBlank c = false :=
    fun c member => isBlank_of_isNameChar (canonical.nameChars c member)
  rw [canonicalChars, trim_of_solid solid, flatMap_spell canonical.nameChars,
    collapse_of_singleUnderscores canonical.singleUnderscores]

theorem Field.toList_text (f : Field) : f.text.toList = f.chars :=
  String.toList_ofList

/-- The name of a field names this field. -/
theorem Field.named_text (f : Field) : named f.text = f := by
  apply ext_chars
  change canonicalChars f.text.toList = f.chars
  rw [f.toList_text, f.canonical.canonicalChars_eq]

end MeasureSheet
