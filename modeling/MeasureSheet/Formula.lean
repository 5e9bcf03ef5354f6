import MeasureSheet.Rule
import MeasureSheet.Decimal.Reading

/-! Formulas: `TARGET = LEFT op RIGHT`, with one operator between two operands, of which at least
one is a field and the other a field or an unsigned decimal. Blanks do not count anywhere.
-/

namespace MeasureSheet

-- -----------------------------------------------------------------------------------------------
-- Errors

/-- Why a text is no formula. -/
inductive FormulaError where
  | missingEquals
  | multipleEquals
  | emptyTarget
  | multipleOperators (count : Nat)
  | missingOperator
  | emptyOperand (op : Operator)
  | noFieldOperand
  | unsupportedOperandOrder (op : Operator)
  | invalidLiteral (token : String)
  | divisionByZero
  | selfReference (field : Field)
deriving DecidableEq

def FormulaError.message : FormulaError → String
  | missingEquals => "missing '=' in formula"
  | multipleEquals => "more than one '=' in formula"
  | emptyTarget => "formula has no target field"
  | multipleOperators count =>
      s!"formula combines {count} operators; only a single binary operation is supported"
  | missingOperator => "unsupported or missing operator in formula"
  | emptyOperand op => s!"operator '{op.symbol}' is missing an operand"
  | noFieldOperand => "formula has no field operand"
  | unsupportedOperandOrder op =>
      s!"'literal {op.symbol} field' cannot be expressed as a proportion or offset of the field"
  | invalidLiteral token => s!"'{token}' is not a valid number"
  | divisionByZero => "division by zero"
  | selfReference field => s!"field '{field.text}' cannot be derived from itself"

-- -----------------------------------------------------------------------------------------------
-- Operands

/-- A token that begins like a number is read as one and never as a field. -/
def beginsLikeNumber : List Char → Bool
  | [] => false
  | c :: _ => c.isDigit || c == '.'

/-- The number that a token writes, or nothing for a token that does not begin like one. -/
def literal? (token : List Char) : Except FormulaError (Option Float) :=
  if !beginsLikeNumber token then .ok none
  else if Decimal.isPlain token && (Decimal.plainValue token).isFinite then
    .ok (some (Decimal.plainValue token))
  else .error (.invalidLiteral (String.ofList token))

/-- The field that an operand of an operator names. -/
def operandField (op : Operator) (token : List Char) : Except FormulaError Field :=
  if (Field.ofChars token).isBlank then .error (.emptyOperand op) else .ok (Field.ofChars token)

/-- `base op value`. -/
def Relation.ofFieldThenLiteral (base : Field) (value : Float)
    : Operator → Except FormulaError Relation
  | .multiply => .ok (.proportion base value)
  | .divide => if value == 0.0 then .error .divisionByZero else .ok (.ratio base (1.0 / value))
  | .add => .ok (.offset base value)
  | .subtract => .ok (.offset base (-value))

/-- `value op base`. -/
def Relation.ofLiteralThenField (value : Float) (base : Field)
    : Operator → Except FormulaError Relation
  | .multiply => .ok (.proportion base value)
  | .add => .ok (.offset base value)
  | .subtract => .error (.unsupportedOperandOrder .subtract)
  | .divide => .error (.unsupportedOperandOrder .divide)

/-- The relation that two tokens and the operator between them write. -/
def Relation.ofTokens (left : List Char) (op : Operator) (right : List Char)
    : Except FormulaError Relation := do
  match ← literal? left, ← literal? right with
  | some _, some _ => .error .noFieldOperand
  | none, some value => Relation.ofFieldThenLiteral (← operandField op left) value op
  | some value, none => Relation.ofLiteralThenField value (← operandField op right) op
  | none, none => return .combine (← operandField op left) op (← operandField op right)

-- -----------------------------------------------------------------------------------------------
-- Formulas

/-- A target and the relation that derives it. -/
structure Formula where
  target : Field
  relation : Relation
deriving DecidableEq

namespace Formula

def isOperator (c : Char) : Bool :=
  (Operator.ofSymbol? c).isSome

/-- The two sides of a text around its only equals sign. -/
def sides (cs : List Char) : Except FormulaError (List Char × List Char) :=
  match cs.count '=' with
  | 0 => .error .missingEquals
  | 1 => .ok (cs.takeWhile (· ≠ '='), (cs.dropWhile (· ≠ '=')).drop 1)
  | _ => .error .multipleEquals

def readTarget (token : List Char) : Except FormulaError Field :=
  if (Field.ofChars token).isBlank || beginsLikeNumber token then .error .emptyTarget
  else .ok (Field.ofChars token)

/-- The relation that the right side of a formula writes. -/
def readRelation (cs : List Char) : Except FormulaError Relation :=
  match cs.filterMap Operator.ofSymbol? with
  | [] => .error .missingOperator
  | [op] =>
      let left := cs.takeWhile fun c => !isOperator c
      let right := (cs.dropWhile fun c => !isOperator c).drop 1
      if left.isEmpty || right.isEmpty then .error (.emptyOperand op)
      else Relation.ofTokens left op right
  | ops => .error (.multipleOperators ops.length)

/-- Reads a formula that has no blanks. -/
def parseChars (cs : List Char) : Except FormulaError Formula := do
  let (left, right) ← sides cs
  let target ← readTarget left
  let relation ← readRelation right
  if target ∈ relation.inputs then .error (.selfReference target)
  else return { target, relation }

/-- Reads a formula. -/
def parse (text : String) : Except FormulaError Formula :=
  parseChars (Text.squeeze text.toList)

end Formula

namespace Rule

/-- A tolerance counts only when it is a finite number. -/
def toleranceOf (tolerance : Option Float) : Float :=
  (tolerance.bind finite?).getD 0.0

/-- The rule that a row writes. -/
def ofRow (id : RuleId) (row : Row) : Except FormulaError Rule := do
  let formula ← Formula.parse row.formula
  return {
    id,
    target := formula.target,
    relation := formula.relation,
    priority := row.priority,
    tolerance := toleranceOf row.tolerance,
    notes := (row.notes.map Text.trimmed).getD ""
  }

end Rule

end MeasureSheet
