import MeasureSheet.Compilation
import MeasureSheet.Proofs.Field.Blanks
import MeasureSheet.Proofs.Formula.Grammar
import MeasureSheet.Proofs.Record.Sources

/-! Names in formulas. To the reader of formulas blanks do not count, while elsewhere blanks between
the words of a name stand for an underscore. So a name that is written in several words means one
field in a formula and another one in a record or a description, and every other name means the
same.
-/

namespace MeasureSheet

-- -----------------------------------------------------------------------------------------------
-- Operands by their names

namespace Relation.Authored

variable {left right : List Char} {op : Operator} {r : Relation}

/-- The first input is the field that the left operand names, if it is no number. -/
theorem head?_inputs (authored : r.Authored left op right) (word : beginsLikeNumber left = false)
    : r.inputs.head? = some (.ofChars left) := by
  cases authored with
  | proportion name | ratio name | raised name | lowered name | combination name =>
      exact congrArg some name.name.symm
  | multiple literal | increased literal =>
      cases word.symm.trans literal.beginsLikeNumber

/-- The last input is the field that the right operand names, if it is no number. -/
theorem getLast?_inputs (authored : r.Authored left op right)
    (word : beginsLikeNumber right = false)
    : r.inputs.getLast? = some (.ofChars right) := by
  cases authored with
  | proportion _ literal | ratio _ literal | raised _ literal | lowered _ literal =>
      cases word.symm.trans literal.beginsLikeNumber
  | multiple _ name | increased _ name | combination _ name =>
      exact congrArg some name.name.symm

end Relation.Authored

-- -----------------------------------------------------------------------------------------------
-- What texts stand for

namespace Formula

/-- But for blanks, the text is a target, an equals sign, and an operator between two operands. -/
def ComposedOf (text target left : String) (op : Operator) (right : String) : Prop :=
  Text.squeeze text.toList
    = Text.squeeze target.toList
      ++ '=' :: (Text.squeeze left.toList ++ op.symbol :: Text.squeeze right.toList)

instance (text target left : String) (op : Operator) (right : String)
    : Decidable (ComposedOf text target left op right) :=
  inferInstanceAs (Decidable (_ = _))

/-- A formula is composed of its parts when they are set off by spaces. -/
theorem composedOf_spaced (target left : String) (op : Operator) (right : String)
    : ComposedOf (target ++ " = " ++ left ++ " " ++ op.symbol.toString ++ " " ++ right)
        target left op right := by
  have space : Text.isBlank ' ' = true := by decide
  have equals : Text.isBlank '=' = false := by decide
  have symbol : Text.isBlank op.symbol = false := by cases op <;> decide
  simp [ComposedOf, Text.squeeze, space, equals, symbol]

/-- The field that a part of a formula's text stands for: the target, or an operand that does not
begin like a number.
-/
inductive StandsFor (text : String) (f : Formula) : (part : String) → Field → Prop where
  | target {target left op right} (composed : ComposedOf text target left op right)
    : StandsFor text f target f.target
  | left {target left op right field} (composed : ComposedOf text target left op right)
    (word : beginsLikeNumber (Text.squeeze left.toList) = false)
    (first : f.relation.inputs.head? = some field)
    : StandsFor text f left field
  | right {target left op right field} (composed : ComposedOf text target left op right)
    (word : beginsLikeNumber (Text.squeeze right.toList) = false)
    (last : f.relation.inputs.getLast? = some field)
    : StandsFor text f right field

/-- In a formula a part stands for the field that it names without its blanks. -/
theorem StandsFor.field_eq {text part : String} {f : Formula} {field : Field}
    (stands : StandsFor text f part field) (read : parse text = .ok f)
    : field = .ofChars (Text.squeeze part.toList) := by
  obtain ⟨target, left, op, right, layout, name, authored, -⟩ := parseChars_eq_ok_iff.mp read
  cases stands with
  | target composed =>
      obtain ⟨rfl, -⟩ := layout.parts_eq composed
      exact name.name.symm
  | left composed word first =>
      obtain ⟨-, rfl, -⟩ := layout.parts_eq composed
      exact Option.some.inj (first.symm.trans (authored.head?_inputs word))
  | right composed word last =>
      obtain ⟨-, -, -, rfl⟩ := layout.parts_eq composed
      exact Option.some.inj (last.symm.trans (authored.getLast?_inputs word))

end Formula

-- -----------------------------------------------------------------------------------------------
-- Names in records and descriptions

/-- A record of supplied values has the value of a field that counts among them. -/
theorem Record.value?_ofKnown (known : List (String × Option Float)) (f : Field)
    : (ofKnown known).value? f = suppliedValue? known f := by
  simp [value?, measurement?_ofKnown, Function.comp_def]

/-- A value is found for a field when it is the one that its name means. -/
theorem Record.value?_ofKnown_singleton_iff {name : String} {x : Float} (finite : x.isFinite)
    {f : Field}
    : (ofKnown [(name, some x)]).value? f = some x ↔ f = .named name := by
  rw [value?_ofKnown]
  by_cases same : Field.named name = f
  · simp [suppliedValue?, finite?, finite, same]
  · simp [suppliedValue?, same, Ne.symm same]

/-- A description is found for a field when it is the one that its name means. -/
theorem find?_describe_singleton_iff {name remark : String} {f : Field}
    : (describe [(name, remark)]).find? f = some (Text.trimmed remark) ↔ f = .named name := by
  have single
      : describe [(name, remark)]
        = (∅ : FieldMap String).insert (.named name) (Text.trimmed remark) :=
    rfl
  rw [single, FieldMap.find?_insert]
  split <;> simp [*]

namespace Formula

/-- A part of a formula stands for the field that it names without its blanks. This is the field
that it names in records and descriptions, and what is given there under this name is found for the
field, exactly when its blanks do not separate words.
-/
theorem standsFor_named_iff {text part : String} {f : Formula} {field : Field}
    (read : parse text = .ok f) (stands : StandsFor text f part field)
    : field = .ofChars (Text.squeeze part.toList)
      ∧ (field = .named part ↔ separatesWords part.toList = false)
      ∧ (separatesWords part.toList = false
        → ∀ known, (Record.ofKnown known).value? field = suppliedValue? known (.named part))
      ∧ (∀ x : Float,
          x.isFinite
          → ((Record.ofKnown [(part, some x)]).value? field = some x
              ↔ separatesWords part.toList = false))
      ∧ ∀ remark,
          (describe [(part, remark)]).find? field = some (Text.trimmed remark)
          ↔ separatesWords part.toList = false := by
  have meant := stands.field_eq read
  have same : field = .named part ↔ separatesWords part.toList = false := by
    rw [meant]
    exact Field.ofChars_squeeze_eq_iff part.toList
  refine ⟨meant, same, fun whole known => ?_, fun x finite => ?_, fun remark => ?_⟩
  · rw [Record.value?_ofKnown, same.mpr whole]
  · rw [Record.value?_ofKnown_singleton_iff finite, same]
  · rw [find?_describe_singleton_iff, same]

/-- Behind a comma a blank is lost in every name, but in the other name it separates two words. -/
theorem spacedNames_standFor
    : let text := "Hip, cm = waist cm / 2"
      let f : Formula := { target := .named "hip_cm", relation := .ratio (.named "waistcm") 0.5 }
      parse text = .ok f
      ∧ StandsFor text f "Hip, cm" f.target
      ∧ f.target = .named "Hip, cm"
      ∧ (Record.ofKnown [("Hip, cm", some 90.0)]).value? f.target = some 90.0
      ∧ StandsFor text f "waist cm" (.named "waistcm")
      ∧ Field.named "waistcm" ≠ .named "waist cm"
      ∧ (Record.ofKnown [("waist cm", some 60.0)]).value? (.named "waistcm") ≠ some 60.0 := by
  intro text f
  have read : parse text = .ok f := by decide +kernel
  have composed : ComposedOf text "Hip, cm" "waist cm" .divide "2" :=
    composedOf_spaced "Hip, cm" "waist cm" .divide "2"
  have target : StandsFor text f "Hip, cm" f.target := .target composed
  have base : StandsFor text f "waist cm" (.named "waistcm") :=
    .left composed (by decide +kernel) rfl
  obtain ⟨-, same, -, found, -⟩ := standsFor_named_iff read target
  obtain ⟨-, other, -, lost, -⟩ := standsFor_named_iff read base
  have whole : separatesWords "Hip, cm".toList = false := by decide +kernel
  have parted : ¬ separatesWords "waist cm".toList = false := by decide +kernel
  exact ⟨read, target, same.mpr whole, (found 90.0 (by decide)).mpr whole, base,
    fun equal => parted (other.mp equal), fun equal => parted ((lost 60.0 (by decide)).mp equal)⟩

/-- The target of a formula can be another field than the one that its text names elsewhere. -/
theorem spacedTarget_isOther
    : ¬ ∀ (name base : String) (f : Formula),
        (name.toList.all fun c => c ≠ '=' && !isOperator c)
        → parse (name ++ " = " ++ base ++ " * 2") = .ok f
        → f.target = .named name := by
  intro same
  have read
      : parse ("hip cm" ++ " = " ++ "waist" ++ " * 2")
        = .ok { target := .named "hipcm", relation := .proportion (.named "waist") 2.0 } := by
    decide +kernel
  have equal := same "hip cm" "waist" _ (by decide +kernel) read
  revert equal
  decide +kernel

end Formula

end MeasureSheet
