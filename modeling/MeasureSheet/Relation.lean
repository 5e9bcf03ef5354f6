import MeasureSheet.FieldMap
import MeasureSheet.Decimal.Writing

/-! Relations between measurements: the arithmetic by which one field follows from one or two
others, and how it is written.
-/

namespace MeasureSheet

/-- The number itself, unless it is infinite or NaN. -/
def finite? (x : Float) : Option Float :=
  if x.isFinite then some x else none

theorem finite?_eq_some_iff {x y : Float} : finite? x = some y ↔ x.isFinite ∧ x = y := by
  unfold finite?
  split <;> simp_all

-- -----------------------------------------------------------------------------------------------
-- Operators

inductive Operator where
  | add
  | subtract
  | multiply
  | divide
deriving DecidableEq, Repr

namespace Operator

def symbol : Operator → Char
  | add => '+'
  | subtract => '-'
  | multiply => '*'
  | divide => '/'

def ofSymbol? : Char → Option Operator
  | '+' => some add
  | '-' => some subtract
  | '*' => some multiply
  | '/' => some divide
  | _ => none

/-- The result of the operation when it is a finite number, so not for a division by zero. -/
def apply : Operator → Float → Float → Option Float
  | add, x, y => finite? (x + y)
  | subtract, x, y => finite? (x - y)
  | multiply, x, y => finite? (x * y)
  | divide, x, y => finite? (x / y)

theorem ofSymbol?_symbol (op : Operator) : ofSymbol? op.symbol = some op := by
  cases op <;> rfl

theorem symbol_of_ofSymbol? {c : Char} {op : Operator} (h : ofSymbol? c = some op)
    : op.symbol = c := by
  unfold ofSymbol? at h
  split at h <;> cases h <;> rfl

end Operator

-- -----------------------------------------------------------------------------------------------
-- Relations

/-- How a field follows from others. A ratio is a proportion that was authored as a division; its
multiplier is the reciprocal of the authored divisor.
-/
inductive Relation where
  | proportion (base : Field) (multiplier : Float)
  | ratio (base : Field) (multiplier : Float)
  | offset (base : Field) (shift : Float)
  | combine (lhs : Field) (op : Operator) (rhs : Field)
deriving DecidableEq, BEq

namespace Relation

def kind : Relation → String
  | proportion .. => "proportion"
  | ratio .. => "ratio"
  | offset .. => "offset"
  | combine .. => "combine"

/-- The fields that have to be known, in the order in which they are written. -/
def inputs : Relation → List Field
  | proportion base _ => [base]
  | ratio base _ => [base]
  | offset base _ => [base]
  | combine lhs _ rhs => [lhs, rhs]

def dependsOn (r : Relation) (f : Field) : Bool :=
  f ∈ r.inputs

/-- The value that follows from known ones, if every input is known and the result is finite. -/
def evaluate (known : Field → Option Float) : Relation → Option Float
  | proportion base multiplier => (known base).bind fun x => finite? (x * multiplier)
  | ratio base multiplier => (known base).bind fun x => finite? (x * multiplier)
  | offset base shift => (known base).bind fun x => finite? (x + shift)
  | combine lhs op rhs => (known lhs).bind fun x => (known rhs).bind fun y => op.apply x y

/-- The relation as a formula, with its fields written by `name`. -/
def write (name : Field → String) : Relation → String
  | proportion base multiplier => name base ++ " * " ++ Decimal.fixed 4 multiplier
  | ratio base multiplier => name base ++ " * " ++ Decimal.fixed 4 multiplier
  | offset base shift =>
      if shift < 0.0 then name base ++ " - " ++ Decimal.text (-shift)
      else name base ++ " + " ++ Decimal.text shift
  | combine lhs op rhs => name lhs ++ " " ++ op.symbol.toString ++ " " ++ name rhs

def text (r : Relation) : String :=
  r.write Field.text

theorem inputs_ne_nil (r : Relation) : r.inputs ≠ [] := by
  cases r <;> simp [inputs]

/-- A relation sees its inputs only. -/
theorem evaluate_congr {known known' : Field → Option Float} {r : Relation}
    (h : ∀ f ∈ r.inputs, known f = known' f)
    : r.evaluate known = r.evaluate known' := by
  cases r <;> simp_all [inputs, evaluate]

end Relation

end MeasureSheet
