import MeasureSheet.Proofs.Decimal.Rereading
import MeasureSheet.Proofs.Formula.Coefficients
import MeasureSheet.Proofs.Formula.Naming
import MeasureSheet.Proofs.Formula.Operators

/-! Formulas that are written and read again. An offset and a combination of two fields are written
with all that was read, so they come back as they were, but for one offset: a zero with a minus sign
is written with two operators.
-/

namespace MeasureSheet

open Binary64

-- -----------------------------------------------------------------------------------------------
-- Names and numbers as operands

/-- The characters of names and of plain numerals. -/
def isOperandChar (c : Char) : Bool :=
  isNameChar c || c == '.'

theorem isOperandChar_cases {c : Char} (operand : isOperandChar c)
    : Text.isBlank c = false ∧ c ≠ '=' ∧ Formula.isOperator c = false := by
  rcases Bool.or_eq_true_iff.mp operand with name | point
  · have range := toNat_of_isNameChar name
    refine ⟨isBlank_of_isNameChar name, ?_, ?_⟩
    · rintro rfl
      exact absurd range (by decide)
    · rw [← Bool.not_eq_true, Formula.isOperator_iff]
      rintro (rfl | rfl | rfl | rfl) <;> exact absurd range (by decide)
  · obtain rfl := beq_iff_eq.mp point
    decide

theorem squeeze_of_operand {cs : List Char} (operand : ∀ c ∈ cs, isOperandChar c)
    : Text.squeeze cs = cs :=
  List.filter_eq_self.mpr fun c member => by simp [isOperandChar_cases (operand c member)]

theorem squeeze_append (front back : List Char)
    : Text.squeeze (front ++ back) = Text.squeeze front ++ Text.squeeze back :=
  List.filter_append front back

theorem equals_not_mem {cs : List Char} (operand : ∀ c ∈ cs, isOperandChar c) : '=' ∉ cs :=
  fun member => (isOperandChar_cases (operand '=' member)).2.1 rfl

theorem Field.isOperandChar_chars (f : Field) : ∀ c ∈ f.chars, isOperandChar c := by
  intro c member
  simp [isOperandChar, f.canonical.nameChars c member]

theorem isOperandChar_of_isPlain {token : List Char} (plain : Decimal.isPlain token)
    : ∀ c ∈ token, isOperandChar c := by
  intro c member
  rcases (isPlain_iff.mp plain).1 c member with digit | rfl
  · simp [isOperandChar, isNameChar, digit]
  · decide

/-- A field whose name was read has a name that is read again. -/
theorem IsName.chars {token : List Char} {f : Field} (name : IsName token f)
    (solid : ∀ c ∈ token, Text.isBlank c = false)
    : IsName f.chars f := by
  obtain ⟨start, rfl, nonblank⟩ := name
  refine ⟨fun d head => ?_, Field.ext_chars (Field.ofChars token).canonical.canonicalChars_eq,
    nonblank⟩
  have spelled : (Field.ofChars token).chars = collapse (token.flatMap spell) := by
    change canonicalChars token = _
    rw [canonicalChars, trim_of_solid solid]
  rw [spelled, head?_collapse] at head
  cases token with
  | nil => cases head
  | cons c token =>
      have first : d ∈ spell c := by
        refine List.mem_of_mem_head? ?_
        rwa [List.flatMap_cons, List.head?_append_of_ne_nil _ (spell_ne_nil c)] at head
      rintro (digit | rfl)
      · obtain rfl := eq_of_mem_spell first digit
        exact start d rfl (Or.inl digit)
      · exact absurd (isNameChar_of_mem_spell first) (by decide)

/-- A float without a sign is written as a literal. -/
theorem isLiteral_chars {x : Float} (unsigned : Unsigned x)
    : IsLiteral (Decimal.chars .message x) x := by
  obtain ⟨plain, value⟩ := Decimal.plainValue_chars unsigned
  obtain ⟨characters, onePoint, digit⟩ := isPlain_iff.mp plain
  exact ⟨characters, onePoint, digit, unsigned.isFinite, value⟩

/-- No literal has a minus sign, not even a zero. -/
theorem IsLiteral.unsigned {token : List Char} {value : Float} (literal : IsLiteral token value)
    : Unsigned value := by
  obtain ⟨v, denotes, nonneg⟩ := literal.exists_denotes
  exact .of_denotes denotes nonneg (literal.value ▸ Decimal.nearest_ne_negativeZero _ _)

theorem IsName.ne_nil {token : List Char} {f : Field} (name : IsName token f) : token ≠ [] := by
  rintro rfl
  obtain ⟨-, rfl, nonblank, -⟩ := name
  exact nonblank rfl

theorem IsLiteral.ne_nil {token : List Char} {value : Float} (literal : IsLiteral token value)
    : token ≠ [] := by
  rintro rfl
  obtain ⟨c, member, -⟩ := literal.digit
  cases member

namespace Relation.Authored

variable {left right : List Char} {op : Operator} {r : Relation}

theorem left_ne_nil (authored : r.Authored left op right) : left ≠ [] := by
  cases authored with
  | proportion name | ratio name | raised name | lowered name | combination name =>
      exact name.ne_nil
  | multiple literal | increased literal => exact literal.ne_nil

theorem right_ne_nil (authored : r.Authored left op right) : right ≠ [] := by
  cases authored with
  | proportion _ literal | ratio _ literal | raised _ literal | lowered _ literal =>
      exact literal.ne_nil
  | multiple _ name | increased _ name | combination _ name => exact name.ne_nil

/-- The names of an authored relation are read again. -/
theorem isName_chars (authored : r.Authored left op right)
    (solid : ∀ c ∈ left ++ right, Text.isBlank c = false)
    : ∀ f ∈ r.inputs, IsName f.chars f := by
  obtain ⟨inLeft, inRight⟩ := List.forall_mem_append.mp solid
  cases authored with
  | proportion name | ratio name | raised name | lowered name =>
      exact List.forall_mem_singleton.mpr (name.chars inLeft)
  | multiple _ name | increased _ name =>
      exact List.forall_mem_singleton.mpr (name.chars inRight)
  | combination name name' =>
      exact List.forall_mem_cons.mpr
        ⟨name.chars inLeft, List.forall_mem_singleton.mpr (name'.chars inRight)⟩

theorem isFinite_shift {base : Field} {shift : Float}
    (authored : (Relation.offset base shift).Authored left op right)
    : shift.isFinite := by
  cases authored with
  | raised _ literal | increased literal => exact literal.finite
  | lowered _ literal => exact literal.isFinite_neg

end Relation.Authored

namespace Formula

-- -----------------------------------------------------------------------------------------------
-- Writing

/-- A formula as it is written, with spaces around its signs. -/
def text (f : Formula) : String :=
  f.target.text ++ " = " ++ f.relation.text

/-- Names and plain numerals around an equals sign and an operator are laid out in this way. -/
theorem layout_of_operand {cs target left right : List Char} {op : Operator}
    (text : cs = target ++ '=' :: (left ++ op.symbol :: right))
    (operand : ∀ c ∈ target ++ (left ++ right), isOperandChar c) (left_ne_nil : left ≠ [])
    (right_ne_nil : right ≠ [])
    : Layout cs target left op right := by
  obtain ⟨inTarget, inSides⟩ := List.forall_mem_append.mp operand
  obtain ⟨inLeft, inRight⟩ := List.forall_mem_append.mp inSides
  have side : '=' ∉ left ++ op.symbol :: right := by
    intro member
    rcases List.mem_append.mp member with inside | inside
    · exact equals_not_mem inLeft inside
    · rcases List.mem_cons.mp inside with symbol | inside
      · exact absurd (isOperator_symbol op) (symbol ▸ by decide)
      · exact equals_not_mem inRight inside
  have cut : CutAt cs target (left ++ op.symbol :: right) := ⟨text, equals_not_mem inTarget, side⟩
  refine ⟨text, (cutAt_iff.mp cut).2, ?_, left_ne_nil, right_ne_nil⟩
  refine (countP_eq_one_iff (isOperator_symbol op)).mpr ⟨fun c member => ?_, fun c member => ?_⟩
  · exact (isOperandChar_cases (inLeft c member)).2.2
  · exact (isOperandChar_cases (inRight c member)).2.2

/-- A text of names and literals, with spaces around its signs, means what these are authored to. -/
theorem parse_spaced {left right : String} {op : Operator} {f : Formula}
    (operand : ∀ c ∈ left.toList ++ right.toList, isOperandChar c)
    (name : IsName f.target.chars f.target)
    (authored : f.relation.Authored left.toList op right.toList)
    (foreign : f.target ∉ f.relation.inputs)
    : parse (f.target.text ++ " = " ++ left ++ " " ++ op.symbol.toString ++ " " ++ right)
      = .ok f := by
  obtain ⟨inLeft, inRight⟩ := List.forall_mem_append.mp operand
  have composed := composedOf_spaced f.target.text left op right
  unfold ComposedOf at composed
  rw [f.target.toList_text, squeeze_of_operand f.target.isOperandChar_chars,
    squeeze_of_operand inLeft, squeeze_of_operand inRight] at composed
  have layout := layout_of_operand composed
    (List.forall_mem_append.mpr ⟨f.target.isOperandChar_chars, operand⟩)
    authored.left_ne_nil authored.right_ne_nil
  exact parseChars_eq_ok_iff.mpr ⟨_, _, op, _, layout, name, authored, foreign⟩

-- -----------------------------------------------------------------------------------------------
-- Reading what was written

variable {target base lhs rhs : Field} {op : Operator} {shift : Float}

/-- A combination of fields whose names are read comes back as it was. -/
theorem parse_text_combine (name : IsName target.chars target) (name' : IsName lhs.chars lhs)
    (name'' : IsName rhs.chars rhs) (foreign : target ∉ [lhs, rhs])
    : parse (text ⟨target, .combine lhs op rhs⟩) = .ok ⟨target, .combine lhs op rhs⟩ := by
  have kept
      : parse (target.text ++ " = " ++ lhs.text ++ " " ++ op.symbol.toString ++ " " ++ rhs.text)
        = .ok ⟨target, .combine lhs op rhs⟩ := by
    refine parse_spaced (f := ⟨target, .combine lhs op rhs⟩) ?_ name ?_ foreign
    · rw [lhs.toList_text, rhs.toList_text]
      exact List.forall_mem_append.mpr ⟨lhs.isOperandChar_chars, rhs.isOperandChar_chars⟩
    · rw [lhs.toList_text, rhs.toList_text]
      exact .combination name' name''
  simpa only [text, Relation.text, Relation.write, String.append_assoc] using kept

/-- What is authored by a field and a number without a sign is read from their texts. -/
theorem parse_spaced_number {x : Float} (name : IsName target.chars target)
    (foreign : target ∉ [base]) (unsigned : Unsigned x)
    (authored : (Relation.offset base shift).Authored base.chars op (Decimal.chars .message x))
    : parse (target.text ++ " = " ++ base.text ++ " " ++ op.symbol.toString ++ " "
        ++ Decimal.text x)
      = .ok ⟨target, .offset base shift⟩ := by
  have plain := (Decimal.plainValue_chars unsigned).1
  refine parse_spaced (f := ⟨target, .offset base shift⟩) ?_ name ?_ foreign
  · rw [base.toList_text, Decimal.text, String.toList_ofList]
    exact List.forall_mem_append.mpr ⟨base.isOperandChar_chars, isOperandChar_of_isPlain plain⟩
  · rwa [base.toList_text, Decimal.text, String.toList_ofList]

/-- An offset by a number without a sign is written as a sum, and comes back as it was. -/
theorem parse_text_raised (name : IsName target.chars target) (name' : IsName base.chars base)
    (foreign : target ∉ [base]) (unsigned : Unsigned shift)
    : parse (text ⟨target, .offset base shift⟩) = .ok ⟨target, .offset base shift⟩ := by
  have plus : " + " = " " ++ (Operator.add.symbol.toString ++ " ") := by decide
  have raised := Relation.Authored.raised name' (isLiteral_chars unsigned)
  have kept := parse_spaced_number name foreign unsigned raised
  simpa only [text, Relation.text, Relation.write, unsigned.not_lt_zero, if_false, plus,
    String.append_assoc] using kept

/-- An offset by a negative number is written as a difference, and comes back as it was. -/
theorem parse_text_lowered (name : IsName target.chars target) (name' : IsName base.chars base)
    (foreign : target ∉ [base]) (negative : shift < 0.0) (unsigned : Unsigned (-shift))
    (finite : shift.isFinite)
    : parse (text ⟨target, .offset base shift⟩) = .ok ⟨target, .offset base shift⟩ := by
  have minus : " - " = " " ++ (Operator.subtract.symbol.toString ++ " ") := by decide
  have lowered := Relation.Authored.lowered name' (isLiteral_chars unsigned)
  rw [neg_neg_float finite] at lowered
  have kept := parse_spaced_number name foreign unsigned lowered
  simpa only [text, Relation.text, Relation.write, negative, if_true, minus,
    String.append_assoc] using kept

/-- A zero with a minus sign is written behind a plus. -/
theorem squeeze_text_negativeZero (target base : Field)
    : Text.squeeze (text ⟨target, .offset base (-0.0)⟩).toList
      = target.chars ++ '=' :: (base.chars ++ ['+', '-', '0']) := by
  have written
      : text ⟨target, .offset base (-0.0)⟩ = target.text ++ " = " ++ base.text ++ " + -0" := by
    have positive : ¬ (-0.0 : Float) < 0.0 := by decide
    have digits : " + " ++ Decimal.text (-0.0) = " + -0" := by decide +kernel
    simp only [text, Relation.text, Relation.write, positive, if_false, digits,
      String.append_assoc]
  have equals : Text.squeeze " = ".toList = ['='] := by decide
  have signs : Text.squeeze " + -0".toList = ['+', '-', '0'] := by decide
  rw [written, String.toList_append, String.toList_append, String.toList_append, squeeze_append,
    squeeze_append, squeeze_append, equals, signs, target.toList_text, base.toList_text,
    squeeze_of_operand target.isOperandChar_chars, squeeze_of_operand base.isOperandChar_chars]
  simp

/-- Two operators behind a field are too many. -/
theorem readRelation_plusMinusZero (base : Field)
    : readRelation (base.chars ++ ['+', '-', '0']) = .error (.multipleOperators 2) := by
  have none : base.chars.filterMap Operator.ofSymbol? = [] :=
    List.filterMap_eq_nil_iff.mpr fun c member =>
      isOperator_eq_false_iff.mp (isOperandChar_cases (base.isOperandChar_chars c member)).2.2
  have operators
      : (base.chars ++ ['+', '-', '0']).filterMap Operator.ofSymbol? = [.add, .subtract] := by
    rw [List.filterMap_append, none]
    rfl
  rw [readRelation, operators]
  rfl

theorem parse_text_negativeZero (name : IsName target.chars target)
    : parse (text ⟨target, .offset base (-0.0)⟩) = .error (.multipleOperators 2) := by
  have side : '=' ∉ base.chars ++ ['+', '-', '0'] := by
    simp [equals_not_mem base.isOperandChar_chars]
  have cut : CutAt _ target.chars (base.chars ++ ['+', '-', '0']) :=
    ⟨squeeze_text_negativeZero target base, equals_not_mem target.isOperandChar_chars, side⟩
  unfold parse parseChars
  rw [cut.sides_eq]
  change (readTarget target.chars >>= fun _ => readRelation _ >>= _) = _
  rw [readTarget_eq_ok_iff.mpr name, readRelation_plusMinusZero]
  rfl

-- -----------------------------------------------------------------------------------------------
-- Formulas that were read

/-- The text takes a literal of the value zero from a field. -/
def SubtractsZero (cs : List Char) : Prop :=
  ∃ target left right, Layout cs target left .subtract right ∧ IsLiteral right 0.0

/-- An offset is a zero with a minus sign when a literal of the value zero is taken from a field. -/
theorem Layout.subtractsZero_iff {cs target left right : List Char} {r : Relation}
    (layout : Layout cs target left op right)
    (authored : r.Authored left op right)
    : SubtractsZero cs ↔ ∃ base, r = .offset base (-0.0) := by
  have literal_iff : SubtractsZero cs ↔ op = .subtract ∧ IsLiteral right 0.0 := by
    constructor
    · rintro ⟨target', left', right', layout', zero⟩
      obtain ⟨-, -, rfl, rfl⟩ := layout.unique layout'
      exact ⟨rfl, zero⟩
    · rintro ⟨rfl, zero⟩
      exact ⟨target, left, right, layout, zero⟩
  rw [literal_iff]
  cases authored with
  | lowered name literal =>
      have zero_iff {value : Float} (finite : value.isFinite) : -value = -0.0 ↔ value = 0.0 :=
        ⟨fun zero => by rw [← neg_neg_float finite, zero]; decide, congrArg _⟩
      simp only [true_and, Relation.offset.injEq, exists_eq_left', zero_iff literal.finite]
      exact ⟨fun zero => literal.value.symm.trans zero.value, fun zero => zero ▸ literal⟩
  | raised name literal | increased literal name =>
      simp [literal.unsigned.ne_negativeZero]
  | proportion name literal | ratio name literal | multiple literal name => simp
  | combination name name' =>
      simp only [reduceCtorEq, exists_false, iff_false, not_and]
      intro _ zero
      cases zero.beginsLikeNumber.symm.trans name'.beginsLikeNumber

/-- An offset by a number other than a zero with a minus sign comes back as it was. -/
theorem parse_text_offset (name : IsName target.chars target) (name' : IsName base.chars base)
    (foreign : target ∉ [base]) (finite : shift.isFinite) (signed : shift ≠ -0.0)
    : parse (text ⟨target, .offset base shift⟩) = .ok ⟨target, .offset base shift⟩ := by
  rcases unsigned_cases finite with unsigned | zero | ⟨negative, unsigned⟩
  · exact parse_text_raised name name' foreign unsigned
  · exact absurd zero signed
  · exact parse_text_lowered name name' foreign negative unsigned finite

/-- An offset or a combination that was read is written as a formula that is read as the same,
unless its text takes zero from a field. Then the offset is a zero with a minus sign, which is
written behind a plus and so refused.
-/
theorem parse_text_eq_ok_iff {text : String} {f : Formula} (read : parse text = .ok f)
    (kind : f.relation.kind = "offset" ∨ f.relation.kind = "combine")
    : (parse f.text = .ok f ↔ ¬ SubtractsZero (Text.squeeze text.toList))
      ∧ (SubtractsZero (Text.squeeze text.toList) ↔ ∃ base, f.relation = .offset base (-0.0))
      ∧ (SubtractsZero (Text.squeeze text.toList)
        → parse f.text = .error (.multipleOperators 2)) := by
  obtain ⟨token, left, op, right, layout, name, authored, foreign⟩ := parseChars_eq_ok_iff.mp read
  have zero_iff := layout.subtractsZero_iff authored
  have solid : ∀ c ∈ token ++ '=' :: (left ++ op.symbol :: right), Text.isBlank c = false :=
    fun c member => Text.isBlank_eq_false_of_mem_squeeze (layout.text ▸ member)
  have name : IsName f.target.chars f.target :=
    name.chars fun c member => solid c (by simp [member])
  have names : ∀ g ∈ f.relation.inputs, IsName g.chars g :=
    authored.isName_chars fun c member => solid c (by
      rcases List.mem_append.mp member with inside | inside <;> simp [inside])
  rw [zero_iff]
  obtain ⟨target, relation⟩ := f
  cases relation with
  | proportion | ratio => simp [Relation.kind] at kind
  | combine lhs op' rhs =>
      have kept : parse (Formula.text ⟨target, .combine lhs op' rhs⟩) = .ok _ :=
        parse_text_combine name (names lhs (by simp [Relation.inputs]))
          (names rhs (by simp [Relation.inputs])) foreign
      simp [kept]
  | offset base shift =>
      have name' : IsName base.chars base := names base List.mem_cons_self
      by_cases zero : shift = -0.0
      · subst zero
        have refused : parse (Formula.text ⟨target, .offset base (-0.0)⟩) = _ :=
          parse_text_negativeZero name
        simp [refused]
      · have kept := parse_text_offset name name' foreign authored.isFinite_shift zero
        simp [kept, zero]

/-- A capital and a comma are lost with the first writing, and nothing else. -/
theorem loweredHem_isKept
    : let f : Formula :=
        { target := .named "hem", relation := .offset (.named "skirt_long") (-1.5) }
      parse "Hem = Skirt,Long - 1.50" = .ok f
      ∧ f.relation.kind = "offset"
      ∧ f.text = "hem = skirt_long - 1.5"
      ∧ parse f.text = .ok f := by
  intro f
  have read : parse "Hem = Skirt,Long - 1.50" = .ok f := by decide +kernel
  have kind : f.relation.kind = "offset" := rfl
  obtain ⟨kept, zero, -⟩ := parse_text_eq_ok_iff read (Or.inl kind)
  refine ⟨read, kind, by decide +kernel, kept.mpr fun subtracts => ?_⟩
  obtain ⟨base, same⟩ := zero.mp subtracts
  have same : (-1.5 : Float) = -0.0 := (Relation.offset.inj same).2
  revert same
  decide

/-- A formula that takes zero from a field is written as one that is refused. -/
theorem subtractedZero_isLost
    : ¬ ∀ text f,
        parse text = .ok f → f.relation.kind = "offset" ∨ f.relation.kind = "combine"
        → parse f.text = .ok f := by
  intro kept
  have read
      : parse "x = a - 0"
        = .ok { target := .named "x", relation := .offset (.named "a") (-0.0) } := by
    decide +kernel
  have reread := kept "x = a - 0" _ read (Or.inl rfl)
  revert reread
  decide +kernel

end Formula

end MeasureSheet
