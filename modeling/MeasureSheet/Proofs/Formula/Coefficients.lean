import MeasureSheet.Proofs.Formula.Grammar
import MeasureSheet.Proofs.Json.FloatTexts
import MeasureSheet.Proofs.RuleTable.Numbers

/-! The coefficients of formulas. Literals are finite, but the reciprocal of a very small one is
not: a formula that divides by such a literal is read all the same, and its relation neither applies
to any value nor has a number that could be written.
-/

namespace MeasureSheet

open Binary64

-- -----------------------------------------------------------------------------------------------
-- Relations with finite numbers

namespace Relation

/-- Every number that the relation holds is finite. -/
def AllFinite (r : Relation) : Prop :=
  ∀ x ∈ r.numbers, x.isFinite

instance (r : Relation) : Decidable r.AllFinite :=
  inferInstanceAs (Decidable (∀ x ∈ r.numbers, x.isFinite))

/-- A relation with finite numbers applies to some value. -/
theorem AllFinite.exists_evaluate {r : Relation} (finite : r.AllFinite)
    : ∃ x y : Float, x.isFinite ∧ r.evaluate (fun _ => some x) = some y := by
  cases r with
  | proportion base number | ratio base number =>
      obtain ⟨v, denotes⟩ := isFinite_iff.mp (finite number List.mem_cons_self)
      have product : (1.0 * number).isFinite :=
        (denotes_one.mul denotes).isFinite ((one_mul v).symm ▸ denotes.inRange)
      exact ⟨1.0, _, by decide, finite?_eq_some_iff.mpr ⟨product, rfl⟩⟩
  | offset base number =>
      obtain ⟨v, denotes⟩ := isFinite_iff.mp (finite number List.mem_cons_self)
      have sum : (0.0 + number).isFinite :=
        (denotes_zero.add denotes).isFinite ((zero_add v).symm ▸ denotes.inRange)
      exact ⟨0.0, _, by decide, finite?_eq_some_iff.mpr ⟨sum, rfl⟩⟩
  | combine lhs op rhs =>
      have applies : (op.apply 1.0 1.0).isSome := by cases op <;> decide
      obtain ⟨y, follows⟩ := Option.isSome_iff_exists.mp applies
      exact ⟨1.0, y, by decide, follows⟩

/-- A relation that applies at all has finite numbers. -/
theorem AllFinite.of_evaluate {r : Relation} {known : Field → Option Float} {x : Float}
    (follows : r.evaluate known = some x)
    : r.AllFinite := by
  cases r with
  | proportion base number | ratio base number =>
      obtain ⟨y, -, follows⟩ := Option.bind_eq_some_iff.mp follows
      have product : (y * number).isFinite := (finite?_eq_some_iff.mp follows).1
      exact List.forall_mem_singleton.mpr (isFinite_of_mul product)
  | offset base number =>
      obtain ⟨y, -, follows⟩ := Option.bind_eq_some_iff.mp follows
      have sum : (y + number).isFinite := (finite?_eq_some_iff.mp follows).1
      exact List.forall_mem_singleton.mpr (isFinite_of_add sum)
  | combine lhs op rhs => exact fun x member => absurd member List.not_mem_nil

/-- The numbers of a relation are finite exactly when all of them are written as numerals. -/
theorem allFinite_iff_numerals {r : Relation}
    : r.AllFinite
      ↔ ∀ x ∈ r.numbers,
          ∃ n : Json.Numeral, n.WellFormed ∧ n.chars = (Json.Value.float x).compactChars := by
  simp only [AllFinite, Json.isFinite_iff_exists_numeral, Json.Value.compactChars]

end Relation

-- -----------------------------------------------------------------------------------------------
-- Literals

/-- The token writes a number too small for a reciprocal in the range of floats. -/
def IsTiny (token : List Char) : Prop :=
  ∃ value v, IsLiteral token value ∧ Denotes value v ∧ v ≤ 2 ^ (-1024 : Int)

/-- The text divides a field by a tiny number. -/
def Formula.DividesByTiny (cs : List Char) : Prop :=
  ∃ target left right, Layout cs target left .divide right ∧ IsTiny right

namespace IsLiteral

variable {token : List Char} {value : Float}

theorem exists_denotes (literal : IsLiteral token value) : ∃ v, Denotes value v ∧ 0 ≤ v := by
  obtain ⟨v, denotes⟩ := isFinite_iff.mp literal.finite
  have faithful := literal.roundsTo.faithful denotes
  exact ⟨v, denotes, faithful.below 0 representable_zero (Decimal.plainNumber_nonneg token)⟩

theorem isFinite_neg (literal : IsLiteral token value) : (-value).isFinite := by
  obtain ⟨v, denotes, -⟩ := literal.exists_denotes
  exact isFinite_iff.mpr ⟨-v, denotes.neg⟩

/-- A literal other than zero has a finite reciprocal unless it is tiny. -/
theorem isFinite_one_div_iff (literal : IsLiteral token value) (nonzero : ¬ value == 0.0)
    : (1.0 / value).isFinite ↔ ¬ IsTiny token := by
  obtain ⟨v, denotes, nonneg⟩ := literal.exists_denotes
  rw [Binary64.isFinite_one_div_iff denotes (denotes.ne_zero nonzero), abs_of_nonneg nonneg]
  constructor
  · rintro large ⟨value', v', literal', denotes', tiny⟩
    obtain rfl : value' = value := literal'.value.symm.trans literal.value
    obtain rfl : v' = v := denotes.unique denotes'
    exact absurd tiny large.not_ge
  · intro notTiny
    by_contra small
    exact notTiny ⟨value, v, literal, denotes, not_lt.mp small⟩

end IsLiteral

-- -----------------------------------------------------------------------------------------------
-- Formulas

theorem Relation.Authored.allFinite_iff {left right : List Char} {op : Operator} {r : Relation}
    (authored : r.Authored left op right)
    : r.AllFinite ↔ ¬ (op = .divide ∧ IsTiny right) := by
  cases authored with
  | proportion name literal | raised name literal | multiple literal name
  | increased literal name =>
      simp [AllFinite, numbers, literal.finite]
  | lowered name literal => simp [AllFinite, numbers, literal.isFinite_neg]
  | ratio name literal nonzero =>
      simp [AllFinite, numbers, literal.isFinite_one_div_iff nonzero]
  | combination name name' =>
      have notTiny : ¬ IsTiny right := by
        rintro ⟨value, v, literal, -⟩
        have start := literal.beginsLikeNumber
        rw [name'.beginsLikeNumber] at start
        cases start
      simp [AllFinite, numbers, notTiny]

namespace Formula

theorem Layout.dividesByTiny_iff {cs target left right : List Char} {op : Operator}
    (layout : Layout cs target left op right)
    : DividesByTiny cs ↔ op = .divide ∧ IsTiny right := by
  constructor
  · rintro ⟨target', left', right', layout', tiny⟩
    obtain ⟨-, -, rfl, rfl⟩ := layout.unique layout'
    exact ⟨rfl, tiny⟩
  · rintro ⟨rfl, tiny⟩
    exact ⟨target, left, right, layout, tiny⟩

/-- The number of a formula is finite unless the formula divides by a tiny literal. When it is
finite the relation applies to some value and its number is written as a numeral, and otherwise
neither is ever so.
-/
theorem parse_allFinite_iff {text : String} {f : Formula} (read : parse text = .ok f)
    : (f.relation.AllFinite ↔ ¬ DividesByTiny (Text.squeeze text.toList))
      ∧ (f.relation.AllFinite
          ↔ ∃ x y : Float, x.isFinite ∧ f.relation.evaluate (fun _ => some x) = some y)
      ∧ (f.relation.AllFinite
          ↔ ∀ x ∈ f.relation.numbers,
              ∃ n : Json.Numeral, n.WellFormed ∧ n.chars = (Json.Value.float x).compactChars)
      ∧ (¬ f.relation.AllFinite → ∀ known, f.relation.evaluate known = none) := by
  obtain ⟨target, left, op, right, layout, -, authored, -⟩ := parseChars_eq_ok_iff.mp read
  refine ⟨?_, ⟨Relation.AllFinite.exists_evaluate, ?_⟩, Relation.allFinite_iff_numerals,
    fun infinite known => ?_⟩
  · rw [layout.dividesByTiny_iff]
    exact authored.allFinite_iff
  · rintro ⟨x, y, -, follows⟩
    exact .of_evaluate follows
  · by_contra applies
    obtain ⟨y, follows⟩ := Option.ne_none_iff_exists'.mp applies
    exact infinite (.of_evaluate follows)

/-- A small divisor, of which the reciprocal is not far from the greatest float. -/
def smallDivisor : List Char :=
  "0.".toList ++ List.replicate 308 '0' ++ ['6']

theorem smallDivisor_isNotTiny
    : ∃ f,
        parse (String.ofList ("a=b/".toList ++ smallDivisor)) = .ok f
        ∧ f.relation.AllFinite
        ∧ ¬ DividesByTiny
              (Text.squeeze (String.ofList ("a=b/".toList ++ smallDivisor)).toList) := by
  have read
      : parse (String.ofList ("a=b/".toList ++ smallDivisor))
        = .ok {
            target := .named "a",
            relation := .ratio (.named "b") (1.0 / Decimal.plainValue smallDivisor)
          } := by
    rw [parse, String.toList_ofList]
    decide +kernel
  obtain ⟨notTiny, -⟩ := parse_allFinite_iff read
  refine ⟨_, read, ?_⟩
  have finite
      : (Relation.ratio (.named "b") (1.0 / Decimal.plainValue smallDivisor)).AllFinite := by
    decide +kernel
  exact ⟨finite, notTiny.mp finite⟩

end Formula

/-- A divisor so small that its inverse is infinite. -/
def tinyDivisor : List Char :=
  "0.".toList ++ List.replicate 308 '0' ++ ['1']

theorem parse_tinyDivisor
    : Formula.parse (String.ofList ("a=b/".toList ++ tinyDivisor))
      = .ok { target := .named "a", relation := .ratio (.named "b") (1.0 / 0.0) } := by
  -- Computing the characters of a long string is slow, so the formula is read from its characters.
  rw [Formula.parse, String.toList_ofList]
  decide +kernel

theorem tinyDivisor_isRead
    : ¬ ∀ text f, Formula.parse text = .ok f → f.relation.AllFinite := by
  intro finite
  have infinite : ¬ (Relation.ratio (.named "b") (1.0 / 0.0)).AllFinite := by decide +kernel
  exact infinite (finite _ _ parse_tinyDivisor)

end MeasureSheet
