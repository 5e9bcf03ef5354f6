import Mathlib.Data.List.Sort
import MeasureSheet.Proofs.RuleBook.Filing

/-! Sorting of candidates. Lists whose rules stand in the order of their rows are sorted by priority
and then by row, and sorting neither loses nor repeats a rule.
-/

namespace MeasureSheet

/-- A candidate is tried before another: it has the lower priority, or that of an earlier row. -/
def Rule.Precedes (r s : Rule) : Prop :=
  r.priority < s.priority ∨ r.priority = s.priority ∧ r.id.number < s.id.number

/-- The rules of a list stand in the order of their rows. -/
def RowsAscend (rules : List Rule) : Prop :=
  rules.Pairwise fun r s => r.id.number < s.id.number

theorem RowsAscend.nodup {rules : List Rule} (ascend : RowsAscend rules)
    : (rules.map (·.id)).Nodup := by
  refine List.pairwise_map.mpr (ascend.imp fun {r s} before same => ?_)
  rw [same] at before
  exact UInt32.lt_irrefl _ before

-- -----------------------------------------------------------------------------------------------
-- Sorted lists

instance : Std.Total fun r s : Rule => r.priority ≤ s.priority :=
  ⟨fun r s => Int32.le_total r.priority s.priority⟩

instance : IsTrans Rule fun r s => r.priority ≤ s.priority :=
  ⟨fun _ _ _ => Int32.le_trans⟩

theorem insertByPriority_eq_orderedInsert (rule : Rule) (rules : List Rule)
    : insertByPriority rule rules
      = rules.orderedInsert (fun r s => r.priority ≤ s.priority) rule := by
  induction rules with
  | nil => rfl
  | cons r rest ih =>
      rw [insertByPriority, List.orderedInsert_cons, ih]
      by_cases lower : r.priority < rule.priority
      · rw [if_pos lower, if_neg (Int32.not_le.mpr lower)]
      · rw [if_neg lower, if_pos (Int32.not_lt.mp lower)]

/-- Candidates are sorted by insertion, as lists are in general. -/
theorem sortByPriority_eq_insertionSort (rules : List Rule)
    : sortByPriority rules = rules.insertionSort fun r s => r.priority ≤ s.priority :=
  congrArg (fun insert => rules.foldr insert [])
    (funext fun rule => funext (insertByPriority_eq_orderedInsert rule))

theorem sortByPriority_perm (rules : List Rule) : (sortByPriority rules).Perm rules := by
  rw [sortByPriority_eq_insertionSort]
  exact List.perm_insertionSort _ rules

theorem pairwise_priority_sortByPriority (rules : List Rule)
    : (sortByPriority rules).Pairwise fun r s => r.priority ≤ s.priority := by
  rw [sortByPriority_eq_insertionSort]
  exact List.pairwise_insertionSort _ rules

/-- One list is another in ascending priority, with rules of equal priority in their old order. -/
structure StablySorted (before after : List Rule) : Prop where
  perm : after.Perm before
  ascending : after.Pairwise fun r s => r.priority ≤ s.priority
  stable
    : ∀ priority,
        (after.filter fun r => r.priority = priority)
        = before.filter fun r => r.priority = priority

/-- Rules of one priority are sorted already, so the sorted list keeps them in their order. -/
theorem stablySorted_sortByPriority (rules : List Rule)
    : StablySorted rules (sortByPriority rules) where
  perm := sortByPriority_perm rules
  ascending := pairwise_priority_sortByPriority rules
  stable priority := by
    have alike
        : (rules.filter fun r => r.priority = priority).Pairwise
            fun r s => r.priority ≤ s.priority := by
      refine List.pairwise_filter.mpr (List.pairwise_of_forall fun r s own own' => ?_)
      rw [of_decide_eq_true own, of_decide_eq_true own']
      exact Int32.le_refl priority
    have kept := List.sublist_insertionSort alike List.filter_sublist
    rw [← sortByPriority_eq_insertionSort] at kept
    have among := kept.filter fun r => decide (r.priority = priority)
    simp only [List.filter_filter, Bool.and_self] at among
    have size := ((sortByPriority_perm rules).filter fun r => r.priority = priority).length_eq
    exact (among.eq_of_length size.symm).symm

/-- When no two rules have one priority, a sorted list ascends strictly. -/
theorem pairwise_lt_sortByPriority {rules : List Rule} (decided : (rules.map (·.priority)).Nodup)
    : (sortByPriority rules).Pairwise fun r s => r.priority < s.priority := by
  have apart : (sortByPriority rules).Pairwise fun r s => r.priority ≠ s.priority :=
    List.pairwise_map.mp (((sortByPriority_perm rules).map _).nodup_iff.mpr decided)
  refine ((pairwise_priority_sortByPriority rules).and apart).imp fun {r s} h => ?_
  obtain ⟨notGreater, different⟩ := h
  exact Int32.lt_of_le_of_ne notGreater different

/-- When no two rules have one priority, their sorted list does not depend on their order. -/
theorem sortByPriority_of_perm {rules rules' : List Rule} (perm : rules.Perm rules')
    (decided : (rules.map (·.priority)).Nodup)
    : sortByPriority rules = sortByPriority rules' := by
  have perms : (sortByPriority rules).Perm (sortByPriority rules') :=
    (sortByPriority_perm rules).trans (perm.trans (sortByPriority_perm rules').symm)
  refine perms.eq_of_pairwise (fun r s _ _ below above => ?_) (pairwise_lt_sortByPriority decided)
    (pairwise_lt_sortByPriority ((perm.map _).nodup_iff.mp decided))
  exact absurd above (Int32.lt_asymm below)

/-- Rules in the order of their rows are sorted strictly, since those of one priority keep it. -/
theorem pairwise_sortByPriority {rules : List Rule} (ascend : RowsAscend rules)
    : (sortByPriority rules).Pairwise Rule.Precedes := by
  have sorted := stablySorted_sortByPriority rules
  rw [List.pairwise_iff_forall_sublist]
  intro r s behind
  have notGreater := List.pairwise_iff_forall_sublist.mp sorted.ascending behind
  by_cases same : r.priority = s.priority
  · have pair : ([r, s].filter fun q => q.priority = s.priority) = [r, s] :=
      List.filter_eq_self.mpr (by simp [same])
    have among := behind.filter fun q => decide (q.priority = s.priority)
    rw [sorted.stable, pair] at among
    have rows := List.pairwise_iff_forall_sublist.mp ascend (among.trans List.filter_sublist)
    exact Or.inr ⟨same, rows⟩
  · exact Or.inl (Int32.lt_of_le_of_ne notGreater same)

namespace RuleBook

theorem mem_entries_sorted {book : RuleBook} {p : Field × List Rule}
    : p ∈ book.sorted.filed.entries
      ↔ ∃ q ∈ book.filed.entries, p = (q.1, sortByPriority q.2) := by
  simp only [sorted, FieldMap.map, List.mem_map, eq_comm]

/-- Sorting a book makes every list strict whose rules stand in the order of their rows. -/
theorem pairwise_entries_sorted {book : RuleBook} (ascend : ∀ f, RowsAscend (book.rulesFor f))
    {p : Field × List Rule} (entry : p ∈ book.sorted.filed.entries)
    : p.2.Pairwise Rule.Precedes := by
  obtain ⟨q, old, rfl⟩ := mem_entries_sorted.mp entry
  have same : book.rulesFor q.1 = q.2 := by
    simp [rulesFor, FieldMap.find?_eq_some_iff.mpr old]
  exact pairwise_sortByPriority (same ▸ ascend q.1)

theorem rulesFor_sorted (book : RuleBook) (target : Field)
    : book.sorted.rulesFor target = sortByPriority (book.rulesFor target) := by
  rw [rulesFor, sorted, FieldMap.find?_map, rulesFor]
  cases book.filed.find? target <;> rfl

theorem rules_sorted_perm (book : RuleBook) : book.sorted.rules.Perm book.rules := by
  simp only [rules_eq_flatMap, sorted, FieldMap.map, List.flatMap_map]
  induction book.filed.entries with
  | nil => exact .rfl
  | cons p rest ih => exact (sortByPriority_perm p.2).append ih

theorem Filed.sorted {book : RuleBook} (filed : book.Filed) : book.sorted.Filed := by
  constructor
  · intro p member empty
    obtain ⟨q, entry, rfl⟩ := mem_entries_sorted.mp member
    have perm := sortByPriority_perm q.2
    rw [show sortByPriority q.2 = [] from empty] at perm
    exact filed.nonempty q entry perm.nil_eq.symm
  · intro p member r inside
    obtain ⟨q, entry, rfl⟩ := mem_entries_sorted.mp member
    exact filed.ownTarget q entry r ((sortByPriority_perm q.2).subset inside)

end RuleBook

end MeasureSheet
