import MeasureSheet.Proofs.Decimal.Characters
import MeasureSheet.Proofs.Derivation.Grounding

/-! The words of derivations. The text of a grounded tree never says that a value is unknown or that
a rule is not in the table, neither in a line of its own nor across names and numbers.
-/

namespace MeasureSheet.Derivation

-- -----------------------------------------------------------------------------------------------
-- Texts that name sources

/-- No capital `U` stands among the characters, and every opening bracket begins a reference to a
rule or to a level. Names and numbers have neither character.
-/
def namesSources : List Char → Bool
  | [] => true
  | c :: cs =>
      c != 'U' && (c != '(' || cs.head? == some 'r' || cs.head? == some 'R') && namesSources cs

theorem namesSources_append {front back : List Char} (first : namesSources front)
    (second : namesSources back)
    : namesSources (front ++ back) := by
  induction front with
  | nil => exact second
  -- No bracket opens at the very end of the first text, so nothing hangs on how the second begins.
  | cons c cs ih => cases cs <;> simp_all [namesSources]

theorem namesSources_of_append {front back : List Char} (both : namesSources (front ++ back))
    : namesSources back := by
  induction front with
  | nil => exact both
  | cons c cs ih =>
      simp only [List.cons_append, namesSources, Bool.and_eq_true] at both
      exact ih both.2

theorem namesSources_of_forall {cs : List Char} (plain : ∀ c ∈ cs, c ≠ 'U' ∧ c ≠ '(')
    : namesSources cs := by
  induction cs with
  | nil => rfl
  | cons c cs ih => simp_all [namesSources]

/-- Where sources are named, none is said to be missing: the words would begin with a `U` or `(n`.
-/
theorem not_isInfix_of_namesSources {cs : List Char} (named : namesSources cs)
    : ¬ "Unknown".toList <:+: cs ∧ ¬ "(not in table)".toList <:+: cs := by
  constructor
  · rintro ⟨front, back, rfl⟩
    rw [List.append_assoc] at named
    have begun := namesSources_of_append named
    simp [namesSources] at begun
  · rintro ⟨front, back, rfl⟩
    rw [List.append_assoc] at named
    have begun := namesSources_of_append named
    simp [namesSources] at begun

/-- The text names sources. -/
def Sourced (text : String) : Prop :=
  namesSources text.toList

instance (text : String) : Decidable (Sourced text) :=
  inferInstanceAs (Decidable (namesSources text.toList = true))

theorem Sourced.append {front back : String} (first : Sourced front) (second : Sourced back)
    : Sourced (front ++ back) := by
  rw [Sourced, String.toList_append]
  exact namesSources_append first second

theorem sourced_join {texts : List String} (each : ∀ text ∈ texts, Sourced text)
    : Sourced (String.join texts) := by
  induction texts with
  | nil => decide
  | cons text rest ih =>
      obtain ⟨first, later⟩ := List.forall_mem_cons.mp each
      rw [String.join_cons]
      exact first.append (ih later)

-- -----------------------------------------------------------------------------------------------
-- Names and numbers

theorem sourced_field (f : Field) : Sourced f.text := by
  rw [Sourced, Field.text, String.toList_ofList]
  apply namesSources_of_forall
  intro c member
  have name := f.canonical.nameChars c member
  constructor <;> (rintro rfl; revert name; decide)

theorem sourced_of_numberChars {text : String} (number : ∀ c ∈ text.toList, Decimal.isNumberChar c)
    : Sourced text := by
  apply namesSources_of_forall
  intro c member
  have char := number c member
  constructor <;> (rintro rfl; revert char; decide)

theorem sourced_nat (n : Nat) : Sourced (toString n) := by
  apply sourced_of_numberChars
  simpa using fun c => Decimal.isNumberChar_of_mem_toDigits

theorem sourced_decimal (x : Float) : Sourced (Decimal.text x) :=
  sourced_of_numberChars fun _ => Decimal.isNumberChar_of_mem_text

theorem sourced_fixed (places : Nat) (x : Float) : Sourced (Decimal.fixed places x) :=
  sourced_of_numberChars fun _ => Decimal.isNumberChar_of_mem_fixed

-- -----------------------------------------------------------------------------------------------
-- Lines

variable {t : RuleTable} {r : Record}

theorem sourced_valueText (r : Record) (f : Field) : Sourced (valueText r f) := by
  unfold valueText
  split
  next value _ =>
    exact .append (.append (by decide : Sourced " [") (sourced_fixed 3 value)) (by decide)
  next => decide

theorem sourced_write {name : Field → String} (named : ∀ f, Sourced (name f)) (r : Relation)
    : Sourced (r.write name) := by
  cases r with
  | proportion base multiplier | ratio base multiplier =>
      exact .append (.append (named base) (by decide)) (sourced_fixed 4 multiplier)
  | offset base shift =>
      rw [Relation.write]
      split
      · exact .append (.append (named base) (by decide)) (sourced_decimal (-shift))
      · exact .append (.append (named base) (by decide)) (sourced_decimal shift)
  | combine lhs op rhs =>
      have symbol : Sourced op.symbol.toString := by cases op <;> decide
      exact .append (.append (.append (.append (named lhs) (by decide)) symbol) (by decide))
        (named rhs)

/-- What accounts for a value is said without the words for a missing source. -/
theorem sourced_sourceText {f : Field} {source : Source} (founded : source.Founded t r f)
    : Sourced (sourceText r source) := by
  cases founded with
  | supplied => exact (by decide : Sourced " -> Supplied")
  | predicted => exact (by decide : Sourced " -> Predicted")
  | @rule blended rule member own known =>
      have mark : Sourced (blendMark blended) := by cases blended <;> decide
      have relation : Sourced (rule.relation.write fun f => f.text ++ valueText r f) :=
        sourced_write (fun f => (sourced_field f).append (sourced_valueText r f)) rule.relation
      have id : Sourced rule.id.text := .append (by decide) (sourced_nat rule.id.number.toNat)
      have formula := (by decide : Sourced " = ").append relation
      have numbered := (formula.append (by decide : Sourced " (rule ")).append id
      exact mark.append (numbered.append (by decide))

mutual

/-- The lines of a grounded tree name sources, by induction on the tree. -/
theorem Grounded.sourced_lines {f : Field} {d : Derivation} (grounded : Grounded t r f d)
    (level : Nat) {lead stem : String} (leads : Sourced lead) (stems : Sourced stem)
    : ∀ line ∈ lines r level lead stem d, Sourced line := by
  cases d with
  | again first =>
      intro line member
      obtain rfl := List.mem_singleton.mp member
      have reference := (by decide : Sourced "-> (Ref to L").append (sourced_nat first)
      exact leads.append (reference.append (by decide))
  | field g source bases =>
      cases grounded with
      | field founded traced =>
          intro line member
          rw [lines] at member
          rcases List.mem_cons.mp member with rfl | below
          · have numbered := (by decide : Sourced "[L").append (sourced_nat level)
            have named := (numbered.append (by decide : Sourced "] ")).append (sourced_field f)
            have valued := (leads.append named).append (sourced_valueText r f)
            exact valued.append (sourced_sourceText founded)
          · exact sourced_baseLines traced (level + 1) stems line below
termination_by sizeOf d

theorem sourced_baseLines {fields : List Field} {bases : List Derivation}
    (traced : List.Forall₂ (Grounded t r) fields bases) (level : Nat) {stem : String}
    (stems : Sourced stem)
    : ∀ line ∈ baseLines r level stem bases, Sourced line := by
  cases bases with
  | nil => simp [baseLines]
  | cons base rest =>
      cases traced with
      | cons grounded others =>
          intro line member
          rw [baseLines] at member
          split at member
          · exact grounded.sourced_lines level (stems.append (by decide)) (stems.append (by decide))
              line member
          · rcases List.mem_append.mp member with branch | later
            · exact grounded.sourced_lines level (stems.append (by decide))
                (stems.append (by decide)) line branch
            · exact sourced_baseLines others level stems line later
termination_by sizeOf bases

end

/-- The text of a grounded tree never says that a source is unknown or missing. -/
theorem not_isInfix_trace {f : Field} (grounded : Grounded t r f (ofField t r f))
    : ¬ "Unknown".toList <:+: (trace t r f).toList
      ∧ ¬ "(not in table)".toList <:+: (trace t r f).toList := by
  apply not_isInfix_of_namesSources
  apply sourced_join
  intro line member
  obtain ⟨text, listed, rfl⟩ := List.mem_map.mp member
  refine .append ?_ (by decide)
  rcases List.mem_append.mp listed with head | tree
  · rcases List.mem_cons.mp head with rfl | ruled
    · exact .append (.append (by decide) (sourced_field f)) (by decide)
    · rw [List.mem_singleton.mp ruled]
      decide
  · exact grounded.sourced_lines 1 (by decide) (by decide) text tree

end MeasureSheet.Derivation
