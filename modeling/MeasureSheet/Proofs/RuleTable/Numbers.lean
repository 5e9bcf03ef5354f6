import MeasureSheet.Proofs.RuleBook.Filing
import MeasureSheet.RuleTable

/-! The numbers of a table. They play no part in its order: a table with other numbers is accepted,
and refused, like the table itself.
-/

namespace MeasureSheet

variable {f : Float → Float}

-- -----------------------------------------------------------------------------------------------
-- Relations and rules

namespace Relation

/-- The numbers that a relation holds. -/
def numbers : Relation → List Float
  | proportion _ multiplier => [multiplier]
  | ratio _ multiplier => [multiplier]
  | offset _ shift => [shift]
  | combine _ _ _ => []

/-- The relation with each of its numbers replaced. -/
def mapNumbers (f : Float → Float) : Relation → Relation
  | proportion base multiplier => proportion base (f multiplier)
  | ratio base multiplier => ratio base (f multiplier)
  | offset base shift => offset base (f shift)
  | combine lhs op rhs => combine lhs op rhs

@[simp] theorem inputs_mapNumbers (r : Relation) : (r.mapNumbers f).inputs = r.inputs := by
  cases r <;> rfl

theorem mapNumbers_eq_self_iff {r : Relation}
    : r.mapNumbers f = r ↔ ∀ x ∈ r.numbers, f x = x := by
  cases r <;> simp [mapNumbers, numbers]

end Relation

namespace Rule

/-- The numbers that a rule holds. -/
def numbers (r : Rule) : List Float :=
  r.relation.numbers ++ [r.tolerance]

/-- The rule with each of its numbers replaced. -/
def mapNumbers (f : Float → Float) (r : Rule) : Rule :=
  { r with relation := r.relation.mapNumbers f, tolerance := f r.tolerance }

@[simp] theorem id_mapNumbers (r : Rule) : (r.mapNumbers f).id = r.id :=
  rfl

@[simp] theorem target_mapNumbers (r : Rule) : (r.mapNumbers f).target = r.target :=
  rfl

@[simp] theorem priority_mapNumbers (r : Rule) : (r.mapNumbers f).priority = r.priority :=
  rfl

@[simp] theorem inputs_mapNumbers (r : Rule) : (r.mapNumbers f).inputs = r.inputs :=
  r.relation.inputs_mapNumbers

theorem mapNumbers_eq_self_iff {r : Rule}
    : r.mapNumbers f = r ↔ ∀ x ∈ r.numbers, f x = x := by
  rw [numbers, List.forall_mem_append, List.forall_mem_singleton, ← Relation.mapNumbers_eq_self_iff]
  obtain ⟨id, target, relation, priority, tolerance, notes⟩ := r
  simp [mapNumbers]

end Rule

-- -----------------------------------------------------------------------------------------------
-- Books

theorem map_eq_self_iff {α : Type} {g : α → α} {items : List α}
    : items.map g = items ↔ ∀ a ∈ items, g a = a := by
  simpa using List.map_inj_left (l := items) (f := g) (g := id)

namespace RuleBook

/-- The numbers that the rules of a book hold. -/
def numbers (book : RuleBook) : List Float :=
  book.rules.flatMap Rule.numbers

/-- The book with each of its numbers replaced. -/
def mapNumbers (f : Float → Float) (book : RuleBook) : RuleBook where
  filed := book.filed.map fun _ rules => rules.map (Rule.mapNumbers f)

theorem entries_mapNumbers (book : RuleBook)
    : (book.mapNumbers f).filed.entries
      = book.filed.entries.map fun p => (p.1, p.2.map (Rule.mapNumbers f)) :=
  rfl

@[simp] theorem hasTarget_mapNumbers (book : RuleBook) (target : Field)
    : (book.mapNumbers f).hasTarget target = book.hasTarget target := by
  simp [hasTarget, mapNumbers, FieldMap.contains, FieldMap.find?_map]

theorem rules_mapNumbers (book : RuleBook)
    : (book.mapNumbers f).rules = book.rules.map (Rule.mapNumbers f) := by
  rw [rules_eq_flatMap, rules_eq_flatMap, entries_mapNumbers, List.flatMap_map, List.map_flatMap]

theorem forall_numbers_iff {book : RuleBook} {P : Float → Prop}
    : (∀ x ∈ book.numbers, P x) ↔ ∀ p ∈ book.filed.entries, ∀ r ∈ p.2, ∀ x ∈ r.numbers, P x := by
  simp only [numbers, rules_eq_flatMap, List.forall_mem_flatMap]

theorem mapNumbers_eq_self_iff {book : RuleBook}
    : book.mapNumbers f = book ↔ ∀ x ∈ book.numbers, f x = x := by
  have entries
      : book.mapNumbers f = book
        ↔ (book.mapNumbers f).filed.entries = book.filed.entries := by
    obtain ⟨⟨entries, ascending⟩⟩ := book
    simp [mapNumbers, FieldMap.map]
  rw [entries, entries_mapNumbers, forall_numbers_iff]
  simp only [map_eq_self_iff, Prod.ext_iff, true_and, Rule.mapNumbers_eq_self_iff]

end RuleBook

-- -----------------------------------------------------------------------------------------------
-- Tables

namespace RuleTable

/-- The numbers that a table holds. -/
def numbers (t : RuleTable) : List Float :=
  t.book.numbers

/-- The table with each of its numbers replaced. -/
def mapNumbers (f : Float → Float) (t : RuleTable) : RuleTable :=
  { t with book := t.book.mapNumbers f }

theorem mapNumbers_eq_self_iff {t : RuleTable}
    : t.mapNumbers f = t ↔ ∀ x ∈ t.numbers, f x = x := by
  rw [numbers, ← RuleBook.mapNumbers_eq_self_iff]
  obtain ⟨order, book, descriptions⟩ := t
  simp [mapNumbers]

theorem isSorted_mapNumbers (rules : List Rule)
    : isSorted (rules.map (Rule.mapNumbers f)) = isSorted rules := by
  induction rules with
  | nil => rfl
  | cons r rest ih =>
      rw [List.map_cons, isSorted, isSorted, ih, List.head?_map, Option.all_map]
      simp only [Rule.priority_mapNumbers]
      rfl

theorem checkRule_mapNumbers (order : List Field) (target : Field) (position : Nat) (r : Rule)
    : checkRule order target position (r.mapNumbers f) = checkRule order target position r := by
  simp only [checkRule, Rule.target_mapNumbers, Rule.id_mapNumbers, Rule.inputs_mapNumbers]

theorem checkTarget_mapNumbers (order : List Field) (target : Field) (rules : List Rule)
    : checkTarget order target (rules.map (Rule.mapNumbers f))
      = checkTarget order target rules := by
  simp only [checkTarget, isSorted_mapNumbers, List.forM_eq_forM, List.forM_map,
    checkRule_mapNumbers]

/-- What is wrong with a table does not depend on its numbers. -/
theorem check_mapNumbers (t : RuleTable) : (t.mapNumbers f).check = t.check := by
  simp only [check, mapNumbers, RuleBook.entries_mapNumbers, RuleBook.hasTarget_mapNumbers,
    List.forM_eq_forM, List.forM_map, checkTarget_mapNumbers]

end RuleTable

end MeasureSheet
