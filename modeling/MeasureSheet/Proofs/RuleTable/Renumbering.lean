import MeasureSheet.Proofs.Inference.Explanation
import MeasureSheet.Proofs.RuleBook.Sorting

/-! Tables under other rule numbers. Numbers say which rule gave a value and not what the value is,
so a table with other numbers derives the same values from every record.
-/

namespace MeasureSheet

-- -----------------------------------------------------------------------------------------------
-- Rules

/-- The rule under another number. -/
def Rule.renumber (number : RuleId → RuleId) (r : Rule) : Rule :=
  { r with id := number r.id }

namespace Rule

variable (number : RuleId → RuleId) (r : Rule)

@[simp] theorem id_renumber : (r.renumber number).id = number r.id :=
  rfl

@[simp] theorem target_renumber : (r.renumber number).target = r.target :=
  rfl

@[simp] theorem relation_renumber : (r.renumber number).relation = r.relation :=
  rfl

@[simp] theorem priority_renumber : (r.renumber number).priority = r.priority :=
  rfl

end Rule

/-- Sorting looks at priorities only. -/
theorem sortByPriority_renumber (number : RuleId → RuleId) (rules : List Rule)
    : sortByPriority (rules.map (.renumber number))
      = (sortByPriority rules).map (.renumber number) := by
  rw [sortByPriority_eq_insertionSort, sortByPriority_eq_insertionSort]
  symm
  apply List.map_insertionSort
  simp

-- -----------------------------------------------------------------------------------------------
-- Books and tables

namespace RuleBook

variable {number : RuleId → RuleId} {book : RuleBook}

/-- The book with its rules under other numbers. -/
def renumber (number : RuleId → RuleId) (book : RuleBook) : RuleBook where
  filed := book.filed.map fun _ rules => rules.map (.renumber number)

theorem rulesFor_renumber (target : Field)
    : (book.renumber number).rulesFor target
      = (book.rulesFor target).map (.renumber number) := by
  rw [rulesFor, renumber, FieldMap.find?_map, rulesFor]
  cases book.filed.find? target <;> rfl

theorem mem_entries_renumber {p : Field × List Rule}
    : p ∈ (book.renumber number).filed.entries
      ↔ ∃ q ∈ book.filed.entries, p = (q.1, q.2.map (.renumber number)) := by
  simp only [renumber, FieldMap.map, List.mem_map, eq_comm]

theorem Filed.renumber (filed : book.Filed) : (book.renumber number).Filed := by
  constructor
  · intro p member empty
    obtain ⟨q, entry, rfl⟩ := mem_entries_renumber.mp member
    exact filed.nonempty q entry (List.map_eq_nil_iff.mp empty)
  · intro p member r inside
    obtain ⟨q, entry, rfl⟩ := mem_entries_renumber.mp member
    obtain ⟨s, old, rfl⟩ := List.mem_map.mp inside
    exact filed.ownTarget q entry s old

theorem rules_renumber (number : RuleId → RuleId) (book : RuleBook)
    : (book.renumber number).rules = book.rules.map (.renumber number) := by
  simp only [rules_eq_flatMap, renumber, FieldMap.map, List.flatMap_map, List.map_flatMap]

/-- Dependencies do not depend on the numbers of the rules that realize them. -/
theorem graph_renumber (number : RuleId → RuleId) (book : RuleBook)
    : (book.renumber number).graph = book.graph := by
  simp only [graph, rules_renumber, List.flatMap_map]
  rfl

/-- Rules are entered by their targets and in their order, under whatever numbers. -/
theorem ofRules_renumber (number : RuleId → RuleId) (rules : List Rule)
    : ofRules (rules.map (.renumber number)) = (ofRules rules).renumber number := by
  refine (filed_ofRules _).ext (filed_ofRules rules).renumber fun f => ?_
  rw [rulesFor_renumber, rulesFor_ofRules, rulesFor_ofRules, List.filter_map]
  rfl

theorem sorted_renumber (number : RuleId → RuleId) (book : RuleBook)
    : (book.renumber number).sorted = book.sorted.renumber number := by
  simp only [sorted, renumber, FieldMap.map, List.map_map, Function.comp_def,
    sortByPriority_renumber]

theorem hasTarget_renumber (number : RuleId → RuleId) (book : RuleBook)
    : (book.renumber number).hasTarget = book.hasTarget := by
  funext f
  simp [hasTarget, renumber, FieldMap.contains, FieldMap.find?_map]

end RuleBook

/-- The table with its rules under other numbers. -/
def RuleTable.renumber (number : RuleId → RuleId) (t : RuleTable) : RuleTable :=
  { t with book := t.book.renumber number }

/-- The table of a book has the numbers of the book. -/
theorem RuleTable.ofBook_renumber (number : RuleId → RuleId) (book : RuleBook)
    (fieldOrder : List Field) (descriptions : FieldMap String)
    : ofBook (book.renumber number) fieldOrder descriptions
      = (ofBook book fieldOrder descriptions).renumber number := by
  simp only [ofBook, renumber, RuleBook.hasTarget_renumber, RuleBook.sorted_renumber]

-- -----------------------------------------------------------------------------------------------
-- Inference

namespace Record

/-- The values of a record are what it is looked up for. -/
theorem values_congr {r s : Record} (same : ∀ f, r.value? f = s.value? f)
    : r.values = s.values := by
  apply FieldMap.ext_find?
  intro f
  simp only [values, FieldMap.find?_map]
  exact same f

end Record

namespace RuleTable

variable (number : RuleId → RuleId) (t : RuleTable)

/-- Rules that are tried in turn give the same value under other numbers, by list induction. -/
theorem value_answer?_renumber (known : Field → Option Float) (candidates : List Rule)
    : (answer? known (candidates.map (.renumber number))).map (·.value)
      = (answer? known candidates).map (·.value) := by
  induction candidates with
  | nil => rfl
  | cons r rest ih =>
      rw [List.map_cons, answer?_cons, answer?_cons, Rule.relation_renumber]
      cases r.relation.evaluate known with
      | some value => rfl
      | none => exact ih

/-- A visit sees values of a record only, and gives the same ones under other numbers. -/
theorem value?_visit_renumber {i i' : Inference}
    (same : ∀ f, i'.record.value? f = i.record.value? f) (target f : Field)
    : (i'.visit (t.renumber number) target).record.value? f
      = (i.visit t target).record.value? f := by
  have known : i'.record.value? = i.record.value? := funext same
  have candidates
      : (t.renumber number).candidates target = (t.candidates target).map (.renumber number) :=
    RuleBook.rulesFor_renumber target
  rw [Record.value?, Record.value?, measurement?_visit, measurement?_visit, candidates, known,
    Record.isKnown_eq_isSome_value?, Record.isKnown_eq_isSome_value?, same]
  split
  · exact value_answer?_renumber number i.record.value? (t.candidates target)
  · exact same f

/-- A table derives the same values under other numbers, by induction on its targets. -/
theorem values_infer_renumber (r : Record)
    : ((t.renumber number).infer r).values = (t.infer r).values := by
  have general (targets : List Field) {i i' : Inference}
      (same : ∀ f, i'.record.value? f = i.record.value? f) (f : Field)
      : (targets.foldl (Inference.visit (t.renumber number)) i').record.value? f
        = (targets.foldl (Inference.visit t) i).record.value? f := by
    induction targets generalizing i i' with
    | nil => exact same f
    | cons target rest ih => exact ih (t.value?_visit_renumber number same target)
  exact Record.values_congr (general t.order fun f => rfl)

end RuleTable

end MeasureSheet
