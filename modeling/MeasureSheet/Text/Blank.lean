/-! Blank characters: the Unicode property White_Space, and the two ways in which a text is freed of
them, at both ends or throughout.
-/

namespace MeasureSheet.Text

/-- The code points with the property White_Space, as inclusive ranges in ascending order. -/
def blankRanges : List (Nat × Nat) :=
  [
    (0x0009, 0x000D), (0x0020, 0x0020), (0x0085, 0x0085), (0x00A0, 0x00A0), (0x1680, 0x1680),
    (0x2000, 0x200A), (0x2028, 0x2029), (0x202F, 0x202F), (0x205F, 0x205F), (0x3000, 0x3000)
  ]

def isBlank (c : Char) : Bool :=
  blankRanges.any fun range => range.1 ≤ c.toNat && c.toNat ≤ range.2

/-- The text without its leading and trailing blanks. -/
def trim (cs : List Char) : List Char :=
  ((cs.dropWhile isBlank).reverse.dropWhile isBlank).reverse

/-- The text without any blank. -/
def squeeze (cs : List Char) : List Char :=
  cs.filter fun c => !isBlank c

/-- The string without its leading and trailing blanks. -/
def trimmed (s : String) : String :=
  String.ofList (trim s.toList)

theorem isBlank_eq_false_of_mem_squeeze {c : Char} {cs : List Char} (h : c ∈ squeeze cs)
    : isBlank c = false := by
  simpa using (List.mem_filter.1 h).2

end MeasureSheet.Text
