import MeasureSheet.Proofs.Decimal.Characters
import MeasureSheet.Proofs.Derivation.Traversal

/-! The layout of derivations. Below its headline, the text of a derivation has one line for each
place of a finite tree of fields, and the indentation of a line shows the way to its place.
-/

namespace MeasureSheet.Derivation

variable {t : RuleTable} {r : Record}

-- -----------------------------------------------------------------------------------------------
-- Texts without line breaks

theorem lineBreak_not_mem_field (f : Field) : '\n' ∉ f.text.toList := by
  rw [Field.text, String.toList_ofList]
  intro member
  exact absurd (f.canonical.nameChars '\n' member) (by decide)

theorem lineBreak_not_mem_of_numberChars {text : String}
    (number : ∀ c ∈ text.toList, Decimal.isNumberChar c)
    : '\n' ∉ text.toList :=
  fun member => absurd (number '\n' member) (by decide)

theorem lineBreak_not_mem_digits (n : Nat) : '\n' ∉ Nat.toDigits 10 n :=
  fun member => absurd (Decimal.isNumberChar_of_mem_toDigits member) (by decide)

theorem lineBreak_not_mem_decimal (x : Float) : '\n' ∉ (Decimal.text x).toList :=
  lineBreak_not_mem_of_numberChars fun _ => Decimal.isNumberChar_of_mem_text

theorem lineBreak_not_mem_fixed (places : Nat) (x : Float)
    : '\n' ∉ (Decimal.fixed places x).toList :=
  lineBreak_not_mem_of_numberChars fun _ => Decimal.isNumberChar_of_mem_fixed

theorem lineBreak_not_mem_valueText (r : Record) (f : Field) : '\n' ∉ (valueText r f).toList := by
  unfold valueText
  split
  · simp [lineBreak_not_mem_fixed]
  · decide

theorem lineBreak_not_mem_write {name : Field → String} (named : ∀ f, '\n' ∉ (name f).toList)
    (r : Relation)
    : '\n' ∉ (r.write name).toList := by
  cases r with
  | proportion base multiplier | ratio base multiplier =>
      simp [Relation.write, named, lineBreak_not_mem_fixed]
  | offset base shift =>
      rw [Relation.write]
      split <;> simp [named, lineBreak_not_mem_decimal]
  | combine lhs op rhs =>
      have symbol : '\n' ≠ op.symbol := by cases op <;> decide
      simp [Relation.write, named, symbol]

theorem lineBreak_not_mem_sourceText (r : Record) (source : Source)
    : '\n' ∉ (sourceText r source).toList := by
  have mark (blended : Bool) : '\n' ∉ (blendMark blended).toList := by
    cases blended <;> decide
  have id (id : RuleId) : '\n' ∉ id.text.toList := by
    simp [RuleId.text, lineBreak_not_mem_digits]
  cases source with
  | unknown | supplied | predicted => rw [sourceText]; decide
  | rule blended rule =>
      have relation : '\n' ∉ (rule.relation.write fun f => f.text ++ valueText r f).toList := by
        apply lineBreak_not_mem_write
        simp [lineBreak_not_mem_field, lineBreak_not_mem_valueText]
      simp [sourceText, ToString.toString, mark, id, relation]
  | missingRule blended missing => simp [sourceText, ToString.toString, mark, id]

theorem lineBreak_not_mem_headline (f : Field) : ∀ line ∈ headline f, '\n' ∉ line.toList := by
  rw [headline, List.forall_mem_cons, List.forall_mem_singleton]
  constructor
  · simp [ToString.toString, lineBreak_not_mem_field]
  · decide

theorem lineBreak_not_mem_indent (way : List Bool) : '\n' ∉ (indent way).toList := by
  have trunks (above : List Bool) : '\n' ∉ (stem above).toList := by
    induction above with
    | nil => decide
    | cons last above ih =>
        have group : '\n' ∉ (trunk last).toList := by cases last <;> decide
        rw [stem, List.map_cons, String.join_cons, ← stem]
        simp [group, ih]
  rcases List.eq_nil_or_concat way with rfl | ⟨above, last, rfl⟩
  · decide
  · have group : '\n' ∉ (branch last).toList := by cases last <;> decide
    rw [List.concat_eq_append, indent_append_singleton]
    simp [trunks, group]

theorem lineBreak_not_mem_line {before : List Visit} {v : Visit} {line : String}
    (tells : TellsOf t r before v line)
    : '\n' ∉ line.toList := by
  cases tells with
  | first fresh unfolded =>
      simp [ToString.toString, lineBreak_not_mem_indent, lineBreak_not_mem_digits,
        lineBreak_not_mem_field, lineBreak_not_mem_valueText, lineBreak_not_mem_sourceText]
  | again occurred leaf =>
      simp [ToString.toString, lineBreak_not_mem_indent, lineBreak_not_mem_digits]

/-- No line that tells of a place is broken, by induction on the places. -/
theorem lineBreak_not_mem_of_tells {before visits : List Visit} {lines : List String}
    (tells : Tells t r before visits lines)
    : ∀ line ∈ lines, '\n' ∉ line.toList := by
  induction tells with
  | nil => exact fun line member => absurd member List.not_mem_nil
  | cons first later ih => exact List.forall_mem_cons.mpr ⟨lineBreak_not_mem_line first, ih⟩

-- -----------------------------------------------------------------------------------------------
-- Derivations

/-- Whatever the rules of a table are, the derivation of a field goes through a finite tree, which
no greater depth would change. The lines of its text below the headline tell of the places of the
tree in pre-order. Each is indented by three characters for every level above its own, and the
indentation of a child continues that of its parent.
-/
theorem trace_isLaidOut (t : RuleTable) (r : Record) (f : Field)
    : (∀ extra, (build t r (r.size + extra) 1 f ∅).1 = ofField t r f)
      ∧ (∃ tree : FieldTree,
          ∃ lines,
            tree.field = f
            ∧ trace t r f = String.join ((headline f ++ lines).map (· ++ "\n"))
            ∧ (∀ line ∈ headline f ++ lines, '\n' ∉ line.toList)
            ∧ Tells t r [] (tree.visits []) lines
            ∧ ∀ v ∈ tree.visits [], (indent v.way).length = 3 * (v.level - 1))
      ∧ ∀ way last,
          (indent (way ++ [last])).toList
          = continueBranches (indent way).toList ++ (branch last).toList := by
  have room := length_unseen_le r ∅
  refine ⟨fun extra => ?_, ?_, fun way last => ?_⟩
  · rw [build_add room, ofField]
  · obtain ⟨tree, root, tells, -⟩ := isTraversal_build (t := t) (f := f) noted_empty room []
    refine ⟨tree, _, root, rfl, ?_, tells, fun v _ => length_indent v.way⟩
    exact List.forall_mem_append.mpr
      ⟨lineBreak_not_mem_headline f, lineBreak_not_mem_of_tells tells⟩
  · rw [continueBranches_indent, indent_append_singleton, String.toList_append]

end MeasureSheet.Derivation
