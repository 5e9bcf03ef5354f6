import MeasureSheet.Decimal.Writing

/-! The characters of decimal texts. Whatever float is written, and however, its text is made of
digits, a sign, a point and the names of the values that are no numbers.
-/

namespace MeasureSheet.Decimal

open Float.Model (UnpackedFloat)

/-- The characters of float texts without exponents. -/
def isNumberChar (c : Char) : Bool :=
  c.isDigit || c ∈ ['-', '.', 'N', 'a', 'i', 'n', 'f']

theorem isNumberChar_of_isDigit {c : Char} (digit : c.isDigit) : isNumberChar c := by
  simp [isNumberChar, digit]

theorem isNumberChar_of_mem_toDigits {n : Nat} {c : Char} (member : c ∈ Nat.toDigits 10 n)
    : isNumberChar c :=
  isNumberChar_of_isDigit (Nat.isDigit_of_mem_toDigits (by decide) (by decide) member)

theorem isNumberChar_of_mem_replicate {n : Nat} {c : Char} (member : c ∈ List.replicate n '0')
    : isNumberChar c := by
  rw [List.eq_of_mem_replicate member]
  decide

/-- The names of the values that are no finite numbers. -/
theorem isNumberChar_of_mem_name {c : Char} (member : c ∈ ['N', 'a', 'N'] ∨ c ∈ ['i', 'n', 'f'])
    : isNumberChar c := by
  simp only [List.mem_cons, List.not_mem_nil, or_false] at member
  rcases member with (rfl | rfl | rfl) | rfl | rfl | rfl <;> decide

theorem isNumberChar_of_mem_signed {cs : List Char} (number : ∀ c ∈ cs, isNumberChar c)
    {sign : UnpackedFloat.Sign} {c : Char} (member : c ∈ signChars sign ++ cs)
    : isNumberChar c := by
  rcases List.mem_append.mp member with signed | unsigned
  · cases sign with
    | positive => cases signed
    | negative =>
        rw [List.mem_singleton.mp signed]
        decide
  · exact number c unsigned

/-- A point and zeros add no other characters to digits. -/
theorem isNumberChar_of_mem_pointed {digits : List Char} (number : ∀ c ∈ digits, isNumberChar c)
    {whole : Int} {c : Char} (member : c ∈ pointed [] digits whole)
    : isNumberChar c := by
  have point : isNumberChar '.' := by decide
  have zero : isNumberChar '0' := by decide
  unfold pointed at member
  split at member
  · simp only [List.append_nil, List.mem_append] at member
    exact member.elim (number c) isNumberChar_of_mem_replicate
  · split at member
    · rcases List.mem_append.mp member with front | back
      · exact number c (List.mem_of_mem_take front)
      · rcases List.mem_cons.mp back with rfl | back
        · exact point
        · exact number c (List.mem_of_mem_drop back)
    · simp only [List.mem_cons, List.cons_append, List.mem_append] at member
      rcases member with rfl | rfl | padding | digit
      · exact zero
      · exact point
      · exact isNumberChar_of_mem_replicate padding
      · exact number c digit

theorem isNumberChar_of_mem_fixedChars {places units : Nat} {c : Char}
    (member : c ∈ fixedChars places units)
    : isNumberChar c := by
  have padded {c : Char}
      (member
        : c ∈ List.replicate (places + 1 - (Nat.toDigits 10 units).length) '0'
          ++ Nat.toDigits 10 units)
      : isNumberChar c :=
    (List.mem_append.mp member).elim isNumberChar_of_mem_replicate isNumberChar_of_mem_toDigits
  unfold fixedChars at member
  rcases List.mem_append.mp member with front | back
  · exact padded (List.mem_of_mem_take front)
  · split at back
    · cases back
    · rcases List.mem_cons.mp back with rfl | back
      · decide
      · exact padded (List.mem_of_mem_drop back)

/-- The shortest text of a float in a message is made of these characters. -/
theorem isNumberChar_of_mem_text {x : Float} {c : Char} (member : c ∈ (text x).toList)
    : isNumberChar c := by
  rw [text, String.toList_ofList] at member
  unfold chars at member
  split at member
  · exact isNumberChar_of_mem_name (Or.inl member)
  · exact isNumberChar_of_mem_signed (fun c name => isNumberChar_of_mem_name (Or.inr name)) member
  · exact isNumberChar_of_mem_signed (fun c => isNumberChar_of_mem_replicate (n := 1)) member
  · refine isNumberChar_of_mem_signed (fun c digits => ?_) member
    exact isNumberChar_of_mem_pointed (fun c => isNumberChar_of_mem_toDigits) digits

/-- The text of a float with a fixed number of places is made of these characters. -/
theorem isNumberChar_of_mem_fixed {places : Nat} {x : Float} {c : Char}
    (member : c ∈ (fixed places x).toList)
    : isNumberChar c := by
  rw [fixed, String.toList_ofList] at member
  split at member
  · exact isNumberChar_of_mem_name (Or.inl member)
  · exact isNumberChar_of_mem_signed (fun c name => isNumberChar_of_mem_name (Or.inr name)) member
  · exact isNumberChar_of_mem_signed (fun c => isNumberChar_of_mem_fixedChars) member
  · exact isNumberChar_of_mem_signed (fun c => isNumberChar_of_mem_fixedChars) member

end MeasureSheet.Decimal
