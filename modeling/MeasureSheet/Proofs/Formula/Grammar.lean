import MeasureSheet.Formula
import MeasureSheet.Proofs.Decimal.Reading
import MeasureSheet.Proofs.Except

/-! The grammar of formulas, which is what their reader accepts. -/

namespace MeasureSheet

-- -----------------------------------------------------------------------------------------------
-- Operands

/-- The token writes a number: digits with at most one point among them, of a finite value. -/
structure IsLiteral (token : List Char) (value : Float) : Prop where
  characters : ∀ c ∈ token, c.isDigit ∨ c = '.'
  onePoint : token.count '.' ≤ 1
  digit : ∃ c ∈ token, c.isDigit
  finite : value.isFinite
  value : Decimal.plainValue token = value

/-- The token names a field: it does not begin like a number, and its name is not blank. -/
structure IsName (token : List Char) (f : Field) : Prop where
  start : ∀ c ∈ token.head?, ¬ (c.isDigit ∨ c = '.')
  name : Field.ofChars token = f
  nonblank : f.chars ≠ [] ∧ f.chars ≠ ['_']

theorem beginsLikeNumber_eq_false_iff {token : List Char}
    : beginsLikeNumber token = false ↔ ∀ c ∈ token.head?, ¬ (c.isDigit ∨ c = '.') := by
  cases token with
  | nil => simp [beginsLikeNumber]
  | cons c token => simp [beginsLikeNumber]

theorem isPlain_iff {token : List Char}
    : Decimal.isPlain token
      ↔ (∀ c ∈ token, c.isDigit ∨ c = '.') ∧ token.count '.' ≤ 1 ∧ ∃ c ∈ token, c.isDigit := by
  simp [Decimal.isPlain, and_assoc]

theorem Field.isBlank_eq_false_iff {f : Field}
    : f.isBlank = false ↔ f.chars ≠ [] ∧ f.chars ≠ ['_'] := by
  simp [isBlank]

theorem IsLiteral.beginsLikeNumber {token : List Char} {value : Float}
    (literal : IsLiteral token value)
    : beginsLikeNumber token := by
  obtain ⟨d, member, -⟩ := literal.digit
  have characters := literal.characters
  cases token with
  | nil => exact absurd member List.not_mem_nil
  | cons c token => simpa [MeasureSheet.beginsLikeNumber] using characters c List.mem_cons_self

/-- The value of a literal is the number that it writes, rounded. -/
theorem IsLiteral.roundsTo {token : List Char} {value : Float} (literal : IsLiteral token value)
    : Binary64.RoundsTo (Decimal.plainNumber token) value :=
  literal.value ▸ Decimal.roundsTo_plainValue token

theorem IsName.beginsLikeNumber {token : List Char} {f : Field} (name : IsName token f)
    : beginsLikeNumber token = false :=
  beginsLikeNumber_eq_false_iff.mpr name.start

theorem isName_iff {token : List Char} {f : Field}
    : IsName token f
      ↔ beginsLikeNumber token = false ∧ (Field.ofChars token).isBlank = false
        ∧ Field.ofChars token = f := by
  rw [beginsLikeNumber_eq_false_iff, Field.isBlank_eq_false_iff]
  constructor
  · rintro ⟨start, rfl, nonblank⟩
    exact ⟨start, nonblank, rfl⟩
  · rintro ⟨start, nonblank, rfl⟩
    exact ⟨start, rfl, nonblank⟩

theorem literal?_eq_ok_none_iff {token : List Char}
    : literal? token = .ok none ↔ beginsLikeNumber token = false := by
  unfold literal?
  cases beginsLikeNumber token with
  | false => simp
  | true =>
      simp only [Bool.not_true, Bool.false_eq_true, if_false, reduceCtorEq, iff_false]
      split <;> simp

theorem literal?_eq_ok_some_iff {token : List Char} {value : Float}
    : literal? token = .ok (some value) ↔ IsLiteral token value := by
  have accepted
      : IsLiteral token value
        ↔ beginsLikeNumber token ∧ (Decimal.isPlain token ∧ (Decimal.plainValue token).isFinite)
          ∧ Decimal.plainValue token = value := by
    rw [isPlain_iff]
    constructor
    · intro literal
      obtain ⟨characters, onePoint, digit, finite, rfl⟩ := id literal
      exact ⟨literal.beginsLikeNumber, ⟨⟨characters, onePoint, digit⟩, finite⟩, rfl⟩
    · rintro ⟨-, ⟨⟨characters, onePoint, digit⟩, finite⟩, rfl⟩
      exact ⟨characters, onePoint, digit, finite, rfl⟩
  rw [accepted, literal?]
  cases beginsLikeNumber token with
  | false => simp
  | true =>
      simp only [Bool.not_true, Bool.false_eq_true, if_false, true_and]
      rw [← Bool.and_eq_true]
      cases Decimal.isPlain token && (Decimal.plainValue token).isFinite <;> simp

theorem operandField_eq_ok_iff {op : Operator} {token : List Char} {f : Field}
    (start : beginsLikeNumber token = false)
    : operandField op token = .ok f ↔ IsName token f := by
  rw [isName_iff, operandField]
  cases (Field.ofChars token).isBlank <;> simp [start]

theorem readTarget_eq_ok_iff {token : List Char} {f : Field}
    : Formula.readTarget token = .ok f ↔ IsName token f := by
  rw [isName_iff, Formula.readTarget]
  cases (Field.ofChars token).isBlank <;> cases beginsLikeNumber token <;> simp

theorem IsLiteral.literal?_eq {token : List Char} {value : Float} (literal : IsLiteral token value)
    : literal? token = .ok (some value) :=
  literal?_eq_ok_some_iff.mpr literal

theorem IsName.literal?_eq {token : List Char} {f : Field} (name : IsName token f)
    : literal? token = .ok none :=
  literal?_eq_ok_none_iff.mpr name.beginsLikeNumber

theorem IsName.operandField_eq {token : List Char} {f : Field} (name : IsName token f)
    (op : Operator)
    : operandField op token = .ok f :=
  (operandField_eq_ok_iff name.beginsLikeNumber).mpr name

-- -----------------------------------------------------------------------------------------------
-- Relations

/-- The relation that is authored by two operands with an operator between them. -/
inductive Relation.Authored : List Char → Operator → List Char → Relation → Prop where
  | proportion {left right base value}
    (name : IsName left base) (literal : IsLiteral right value)
    : Authored left .multiply right (.proportion base value)
  | ratio {left right base value}
    (name : IsName left base) (literal : IsLiteral right value) (nonzero : ¬ value == 0.0)
    : Authored left .divide right (.ratio base (1.0 / value))
  | raised {left right base value}
    (name : IsName left base) (literal : IsLiteral right value)
    : Authored left .add right (.offset base value)
  | lowered {left right base value}
    (name : IsName left base) (literal : IsLiteral right value)
    : Authored left .subtract right (.offset base (-value))
  | multiple {left right base value}
    (literal : IsLiteral left value) (name : IsName right base)
    : Authored left .multiply right (.proportion base value)
  | increased {left right base value}
    (literal : IsLiteral left value) (name : IsName right base)
    : Authored left .add right (.offset base value)
  | combination {left op right lhs rhs}
    (name : IsName left lhs) (name' : IsName right rhs)
    : Authored left op right (.combine lhs op rhs)

namespace Relation

variable {left right : List Char} {op : Operator} {r : Relation}

theorem Authored.of_fieldThenLiteral {base : Field} {value : Float} (name : IsName left base)
    (literal : IsLiteral right value) (made : ofFieldThenLiteral base value op = .ok r)
    : Authored left op right r := by
  cases op with
  | add =>
      obtain rfl := Except.ok.inj made
      exact .raised name literal
  | subtract =>
      obtain rfl := Except.ok.inj made
      exact .lowered name literal
  | multiply =>
      obtain rfl := Except.ok.inj made
      exact .proportion name literal
  | divide =>
      by_cases zero : value == 0.0
      · simp [ofFieldThenLiteral, zero] at made
      · obtain rfl : Relation.ratio base (1.0 / value) = r := by
          simpa [ofFieldThenLiteral, zero] using made
        exact .ratio name literal zero

theorem Authored.of_literalThenField {base : Field} {value : Float} (literal : IsLiteral left value)
    (name : IsName right base) (made : ofLiteralThenField value base op = .ok r)
    : Authored left op right r := by
  cases op with
  | add =>
      obtain rfl := Except.ok.inj made
      exact .increased literal name
  | multiply =>
      obtain rfl := Except.ok.inj made
      exact .multiple literal name
  | subtract | divide => cases made

/-- Two operands are told apart by how each begins, and after that the operator decides. -/
theorem ofTokens_eq_ok_iff : ofTokens left op right = .ok r ↔ Authored left op right r := by
  constructor
  · intro made
    rw [ofTokens, bind_eq_ok_iff] at made
    obtain ⟨valueLeft, readLeft, made⟩ := made
    obtain ⟨valueRight, readRight, made⟩ := bind_eq_ok_iff.mp made
    cases valueLeft with
    | none =>
        have startLeft := literal?_eq_ok_none_iff.mp readLeft
        cases valueRight with
        | none =>
            have startRight := literal?_eq_ok_none_iff.mp readRight
            obtain ⟨lhs, named, made⟩ := bind_eq_ok_iff.mp made
            obtain ⟨rhs, named', made⟩ := bind_eq_ok_iff.mp made
            obtain rfl := Except.ok.inj made
            exact .combination ((operandField_eq_ok_iff startLeft).mp named)
              ((operandField_eq_ok_iff startRight).mp named')
        | some value =>
            obtain ⟨base, named, made⟩ := bind_eq_ok_iff.mp made
            exact .of_fieldThenLiteral ((operandField_eq_ok_iff startLeft).mp named)
              (literal?_eq_ok_some_iff.mp readRight) made
    | some value =>
        have literal := literal?_eq_ok_some_iff.mp readLeft
        cases valueRight with
        | none =>
            have startRight := literal?_eq_ok_none_iff.mp readRight
            obtain ⟨base, named, made⟩ := bind_eq_ok_iff.mp made
            exact .of_literalThenField literal ((operandField_eq_ok_iff startRight).mp named) made
        | some _ => cases made
  · intro authored
    cases authored with
    | proportion name literal | raised name literal | lowered name literal =>
        simp [ofTokens, name.literal?_eq, literal.literal?_eq, name.operandField_eq,
          ofFieldThenLiteral, bind, Except.bind]
    | ratio name literal nonzero =>
        simp [ofTokens, name.literal?_eq, literal.literal?_eq, name.operandField_eq,
          ofFieldThenLiteral, nonzero, bind, Except.bind]
    | multiple literal name | increased literal name =>
        simp [ofTokens, name.literal?_eq, literal.literal?_eq, name.operandField_eq,
          ofLiteralThenField, bind, Except.bind]
    | combination name name' =>
        simp [ofTokens, name.literal?_eq, name'.literal?_eq, name.operandField_eq,
          name'.operandField_eq, bind, Except.bind, pure, Except.pure]

end Relation

-- -----------------------------------------------------------------------------------------------
-- Formulas

namespace Formula

/-- The parts of a text with one equals sign, and one operator to the right of it. -/
structure Layout (cs target left : List Char) (op : Operator) (right : List Char) : Prop where
  text : cs = target ++ '=' :: (left ++ op.symbol :: right)
  oneEquals : cs.count '=' = 1
  oneOperator : (left ++ op.symbol :: right).countP isOperator = 1
  left_ne_nil : left ≠ []
  right_ne_nil : right ≠ []

/-- The formula that a text without blanks is authored to mean. -/
def Authored (cs : List Char) (f : Formula) : Prop :=
  ∃ target left op right,
    Layout cs target left op right
    ∧ IsName target f.target
    ∧ f.relation.Authored left op right
    ∧ f.target ∉ f.relation.inputs

theorem isOperator_iff {c : Char}
    : isOperator c ↔ c = '+' ∨ c = '-' ∨ c = '*' ∨ c = '/' := by
  unfold isOperator Operator.ofSymbol?
  split <;> simp_all

theorem isOperator_symbol (op : Operator) : isOperator op.symbol := by
  cases op <;> decide

/-- A text is cut at the first character that is not kept. -/
theorem cut_append {kept : Char → Bool} {front back : List Char} {c : Char}
    (all : ∀ d ∈ front, kept d) (stop : kept c = false)
    : (front ++ c :: back).takeWhile kept = front
      ∧ ((front ++ c :: back).dropWhile kept).drop 1 = back := by
  have notKept : ¬ kept c := by simp [stop]
  rw [List.takeWhile_append_of_pos all, List.takeWhile_cons_of_neg notKept,
    List.dropWhile_append_of_pos all, List.dropWhile_cons_of_neg notKept]
  exact ⟨List.append_nil front, rfl⟩

/-- A text has one marked character when there is none before it and none behind it. -/
theorem countP_eq_one_iff {mark : Char → Bool} {front back : List Char} {c : Char} (marked : mark c)
    : (front ++ c :: back).countP mark = 1
      ↔ (∀ d ∈ front, mark d = false) ∧ ∀ d ∈ back, mark d = false := by
  have none (cs : List Char) : cs.countP mark = 0 ↔ ∀ d ∈ cs, mark d = false := by
    simp [List.countP_eq_zero]
  rw [List.countP_append, List.countP_cons_of_pos marked, ← none, ← none]
  omega

theorem sides_eq_ok_iff {cs left right : List Char}
    : sides cs = .ok (left, right) ↔ cs = left ++ '=' :: right ∧ cs.count '=' = 1 := by
  have cut {front back : List Char} (absent : '=' ∉ front)
      : (front ++ '=' :: back).takeWhile (· ≠ '=') = front
        ∧ ((front ++ '=' :: back).dropWhile (· ≠ '=')).drop 1 = back :=
    cut_append (fun d member => decide_eq_true fun same => absent (same ▸ member)) (by decide)
  constructor
  · intro made
    unfold sides at made
    split at made
    next => cases made
    next one =>
      obtain ⟨front, back, rfl, absent⟩ := List.eq_append_cons_of_mem
        (List.one_le_count_iff.mp (Nat.le_of_eq one.symm))
      obtain ⟨front_eq, back_eq⟩ := @cut front back absent
      rw [front_eq, back_eq] at made
      obtain ⟨rfl, rfl⟩ := Prod.mk.inj (Except.ok.inj made)
      exact ⟨rfl, one⟩
    next => cases made
  · rintro ⟨rfl, one⟩
    have absent : '=' ∉ left := by
      intro member
      have some := List.one_le_count_iff.mpr member
      rw [List.count_append, List.count_cons_self] at one
      omega
    obtain ⟨front_eq, back_eq⟩ := @cut left right absent
    unfold sides
    rw [one]
    simp only [front_eq, back_eq]

theorem isOperator_eq_false_iff {c : Char}
    : isOperator c = false ↔ Operator.ofSymbol? c = none := by
  simp [isOperator]

/-- A text has a single operator when it can be cut in two at its only operator character. -/
theorem filterMap_ofSymbol?_eq_singleton_iff {cs : List Char} {op : Operator}
    : cs.filterMap Operator.ofSymbol? = [op]
      ↔ ∃ left right, cs = left ++ op.symbol :: right ∧ cs.countP isOperator = 1 := by
  constructor
  · intro single
    have one : cs.countP isOperator = 1 := by
      unfold isOperator
      rw [← List.length_filterMap_eq_countP, single, List.length_singleton]
    obtain ⟨left, c, right, cut, -, found, -⟩ := List.filterMap_eq_cons_iff.mp single
    exact ⟨left, right, Operator.symbol_of_ofSymbol? found ▸ cut, one⟩
  · rintro ⟨left, right, rfl, one⟩
    obtain ⟨before, after⟩ := (countP_eq_one_iff (isOperator_symbol op)).mp one
    simp only [isOperator_eq_false_iff] at before after
    exact List.filterMap_eq_cons_iff.mpr ⟨left, op.symbol, right, rfl, before,
      op.ofSymbol?_symbol, List.filterMap_eq_nil_iff.mpr after⟩

/-- A text with a single operator is cut at it. -/
theorem cut_operator {left right : List Char} {op : Operator}
    (one : (left ++ op.symbol :: right).countP isOperator = 1)
    : (left ++ op.symbol :: right).takeWhile (fun c => !isOperator c) = left
      ∧ ((left ++ op.symbol :: right).dropWhile fun c => !isOperator c).drop 1 = right := by
  obtain ⟨before, -⟩ := (countP_eq_one_iff (isOperator_symbol op)).mp one
  exact cut_append (fun c member => by simp [before c member]) (by simp [isOperator_symbol op])

/-- A text that has a layout is composed of those parts only, however it is put together. -/
theorem Layout.parts_eq {cs target target' left left' right right' : List Char} {op op' : Operator}
    (layout : Layout cs target left op right)
    (text : cs = target' ++ '=' :: (left' ++ op'.symbol :: right'))
    : target' = target ∧ left' = left ∧ op' = op ∧ right' = right := by
  have parts := sides_eq_ok_iff.mpr ⟨text, layout.oneEquals⟩
  rw [sides_eq_ok_iff.mpr ⟨layout.text, layout.oneEquals⟩] at parts
  obtain ⟨rfl, side⟩ := Prod.mk.inj (Except.ok.inj parts)
  have one := layout.oneOperator
  have single := filterMap_ofSymbol?_eq_singleton_iff.mpr ⟨left, right, rfl, one⟩
  obtain ⟨left_eq, right_eq⟩ := cut_operator one
  rw [side] at one single left_eq right_eq
  rw [filterMap_ofSymbol?_eq_singleton_iff.mpr ⟨left', right', rfl, one⟩] at single
  obtain ⟨rfl, -⟩ := List.cons.inj single
  obtain ⟨left_eq', right_eq'⟩ := cut_operator one
  exact ⟨rfl, left_eq'.symm.trans left_eq, rfl, right_eq'.symm.trans right_eq⟩

/-- A text is laid out in one way. -/
theorem Layout.unique {cs target target' left left' right right' : List Char} {op op' : Operator}
    (layout : Layout cs target left op right) (layout' : Layout cs target' left' op' right')
    : target' = target ∧ left' = left ∧ op' = op ∧ right' = right :=
  layout.parts_eq layout'.text

/-- Around its single operator a text is read as the operands of this operator. -/
theorem readRelation_append {left right : List Char} {op : Operator}
    (one : (left ++ op.symbol :: right).countP isOperator = 1)
    : readRelation (left ++ op.symbol :: right)
      = if left.isEmpty || right.isEmpty then .error (.emptyOperand op)
        else Relation.ofTokens left op right := by
  unfold readRelation
  rw [filterMap_ofSymbol?_eq_singleton_iff.mpr ⟨left, right, rfl, one⟩]
  simp only [cut_operator one]

theorem readRelation_eq_ok_iff {cs : List Char} {r : Relation}
    : readRelation cs = .ok r
      ↔ ∃ left op right,
          cs = left ++ op.symbol :: right
          ∧ cs.countP isOperator = 1
          ∧ left ≠ []
          ∧ right ≠ []
          ∧ r.Authored left op right := by
  have operands {left right : List Char} {op : Operator}
      (one : (left ++ op.symbol :: right).countP isOperator = 1)
      : readRelation (left ++ op.symbol :: right) = .ok r
        ↔ left ≠ [] ∧ right ≠ [] ∧ r.Authored left op right := by
    rw [readRelation_append one, ← Relation.ofTokens_eq_ok_iff]
    cases left <;> cases right <;> simp
  constructor
  · intro made
    have single : ∃ op, cs.filterMap Operator.ofSymbol? = [op] := by
      unfold readRelation at made
      split at made
      next => cases made
      next op single => exact ⟨op, single⟩
      next => cases made
    obtain ⟨op, single⟩ := single
    obtain ⟨left, right, rfl, one⟩ := filterMap_ofSymbol?_eq_singleton_iff.mp single
    exact ⟨left, op, right, rfl, one, (operands one).mp made⟩
  · rintro ⟨left, op, right, rfl, one, authored⟩
    exact (operands one).mpr authored

/-- Reading a text without blanks is reading its two sides, and a target is no input of its own. -/
theorem parseChars_eq_ok_iff_sides {cs : List Char} {f : Formula}
    : parseChars cs = .ok f
      ↔ ∃ left right,
          sides cs = .ok (left, right)
          ∧ readTarget left = .ok f.target
          ∧ readRelation right = .ok f.relation
          ∧ f.target ∉ f.relation.inputs := by
  obtain ⟨target, relation⟩ := f
  have finished (g : Field) (r : Relation)
      : (if g ∈ r.inputs then .error (.selfReference g) else pure { target := g, relation := r })
          = Except.ok (ε := FormulaError) { target, relation : Formula }
        ↔ g ∉ r.inputs ∧ g = target ∧ r = relation := by
    split <;> simp [pure, Except.pure, *]
  simp only [parseChars, bind_eq_ok_iff, Prod.exists, finished]
  constructor
  · rintro ⟨left, right, cut, _, named, _, made, foreign, rfl, rfl⟩
    exact ⟨left, right, cut, named, made, foreign⟩
  · rintro ⟨left, right, cut, named, made, foreign⟩
    exact ⟨left, right, cut, target, named, relation, made, foreign, rfl, rfl⟩

theorem parseChars_eq_ok_iff {cs : List Char} {f : Formula}
    : parseChars cs = .ok f ↔ Authored cs f := by
  rw [parseChars_eq_ok_iff_sides]
  constructor
  · rintro ⟨target, side, cut, named, made, foreign⟩
    obtain ⟨rfl, oneEquals⟩ := sides_eq_ok_iff.mp cut
    obtain ⟨left, op, right, rfl, oneOperator, left_ne_nil, right_ne_nil, authored⟩ :=
      readRelation_eq_ok_iff.mp made
    exact ⟨target, left, op, right, ⟨rfl, oneEquals, oneOperator, left_ne_nil, right_ne_nil⟩,
      readTarget_eq_ok_iff.mp named, authored, foreign⟩
  · rintro ⟨target, left, op, right, layout, name, authored, foreign⟩
    obtain ⟨rfl, oneEquals, oneOperator, left_ne_nil, right_ne_nil⟩ := layout
    exact ⟨target, _, sides_eq_ok_iff.mpr ⟨rfl, oneEquals⟩, readTarget_eq_ok_iff.mpr name,
      readRelation_eq_ok_iff.mpr
        ⟨left, op, right, rfl, oneOperator, left_ne_nil, right_ne_nil, authored⟩,
      foreign⟩

/-- A text is read as a formula exactly when it is authored to mean it, blanks aside, and every
other text is refused. A literal has no name that could be the target's, and its value is the number
that it writes, rounded.
-/
theorem parse_eq_ok_iff_authored (text : String)
    : (∀ f, parse text = .ok f ↔ Authored (Text.squeeze text.toList) f)
      ∧ ((∃ cause, parse text = .error cause) ↔ ¬ ∃ f, Authored (Text.squeeze text.toList) f)
      ∧ ∀ token value,
          IsLiteral token value → Binary64.RoundsTo (Decimal.plainNumber token) value := by
  have accepted (f : Formula) : parse text = .ok f ↔ Authored (Text.squeeze text.toList) f :=
    parseChars_eq_ok_iff
  refine ⟨accepted, ?_, fun token value literal => literal.roundsTo⟩
  simp only [← accepted]
  cases parse text <;> simp

/-- Blanks, capitals and other characters that no name holds do not keep a text from its meaning. -/
theorem wideSkirt_isAuthored
    : Authored (Text.squeeze "Skirt, wide = Hip\u00A0cm / .8".toList)
      { target := .named "skirt_wide", relation := .ratio (.named "hipcm") 1.25 } :=
  ((parse_eq_ok_iff_authored "Skirt, wide = Hip\u00A0cm / .8").1 _).mp (by decide +kernel)

end Formula

end MeasureSheet
