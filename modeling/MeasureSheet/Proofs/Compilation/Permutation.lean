import Mathlib.Data.List.Perm.Basic
import MeasureSheet.Proofs.Compilation.Stages
import MeasureSheet.Proofs.DependencyGraph.Ordering
import MeasureSheet.Proofs.CycleRemoval.Rearrangement

/-! Sheets with their rows in another order. When priorities decide between the rules, the order of
the rows only says which numbers the rules have.
-/

namespace MeasureSheet

-- -----------------------------------------------------------------------------------------------
-- Rows in another order

/-- Where each row of a sheet stands in another sheet of the same rows. -/
structure RowPlaces (rows rows' : List Row) where
  place : Fin rows.length → Fin rows'.length
  bijective : Function.Bijective place
  same : ∀ i, rows'.get (place i) = rows.get i

/-- Equal rows are matched in their order. -/
theorem nonempty_rowPlaces {rows rows' : List Row} (perm : rows.Perm rows')
    : Nonempty (RowPlaces rows rows') := by
  let _ : BEq Row := instBEqOfDecidableEq
  exact ⟨perm.idxBij, ⟨perm.idxBij_injective, perm.idxBij_surjective⟩,
    perm.getElem_idxBij_eq_getElem⟩

/-- The row is a rule. -/
def Row.isRule (row : Row) : Bool :=
  (Formula.parse row.formula).isOk

/-- Among the rows that are rules no two have one priority. -/
def PrioritiesDiffer (rows : List Row) : Prop :=
  rows.Pairwise fun row row' => row.isRule → row'.isRule → row.priority ≠ row'.priority

instance (rows : List Row) : Decidable (PrioritiesDiffer rows) :=
  inferInstanceAs (Decidable (rows.Pairwise _))

theorem Rule.ofRow_renumber (number : RuleId → RuleId) (id : RuleId) (row : Row)
    : Rule.ofRow (number id) row = (Rule.ofRow id row).map (.renumber number) := by
  unfold Rule.ofRow
  cases Formula.parse row.formula <;> rfl

theorem Rule.of_ofRow {id : RuleId} {row : Row} {r : Rule} (read : Rule.ofRow id row = .ok r)
    : row.isRule ∧ r.priority = row.priority := by
  unfold Rule.ofRow at read
  unfold Row.isRule
  cases parsed : Formula.parse row.formula with
  | error reason => simp [parsed, bind, Except.bind] at read
  | ok formula =>
      simp only [parsed, bind, Except.bind, pure, Except.pure, Except.ok.injEq] at read
      rw [← read]
      exact ⟨rfl, rfl⟩

theorem map_source_readRows (rows : List Row) : (readRows rows).map (·.source) = rows := by
  rw [readRows, List.map_map]
  exact List.zipIdx_map_fst 0 rows

/-- Rules have the priorities of their rows. -/
theorem PrioritiesDiffer.nodup_priorities {rows : List Row} (differ : PrioritiesDiffer rows)
    : ((readRules rows).map (·.priority)).Nodup := by
  rw [PrioritiesDiffer, ← map_source_readRows rows, List.pairwise_map] at differ
  refine List.pairwise_map.mpr (List.pairwise_filterMap.mpr (differ.imp_of_mem ?_))
  intro read read' member member' apart r accepted r' accepted'
  have result := (mem_readRows.mp member).2.symm.trans (ReadRow.rule?_eq_some_iff.mp accepted)
  have result' := (mem_readRows.mp member').2.symm.trans (ReadRow.rule?_eq_some_iff.mp accepted')
  obtain ⟨isRule, priority⟩ := Rule.of_ofRow result
  obtain ⟨isRule', priority'⟩ := Rule.of_ofRow result'
  rw [priority, priority']
  exact apart isRule isRule'

-- -----------------------------------------------------------------------------------------------
-- Rules of rows in another order

namespace RowPlaces

variable {rows rows' : List Row}

/-- The number of the rule that has a number in the other sheet. -/
def renumber (places : RowPlaces rows rows') (id : RuleId) : RuleId :=
  if inside : id.number.toNat < rows.length then .ofRow (places.place ⟨_, inside⟩) else id

theorem renumber_ofRow (places : RowPlaces rows rows') (bounded : rows.length ≤ 2 ^ 32)
    (i : Fin rows.length)
    : places.renumber (.ofRow i) = .ofRow (places.place i) := by
  have number : (RuleId.ofRow i).number.toNat = i := RuleId.toNat_ofRow (by omega)
  simp only [renumber, number, i.isLt, dite_true]

theorem length_eq (places : RowPlaces rows rows') : rows.length = rows'.length := by
  simpa using Fintype.card_of_bijective places.bijective

/-- Each row is read as the same rule in both sheets, but for its number. -/
theorem mem_readRules_iff (places : RowPlaces rows rows') (bounded : rows.length ≤ 2 ^ 32)
    {r' : Rule}
    : r' ∈ readRules rows' ↔ ∃ r ∈ readRules rows, r.renumber places.renumber = r' := by
  constructor
  · intro member
    obtain ⟨i', row, present', accepted'⟩ := mem_readRules.mp member
    obtain ⟨inside', row'⟩ := List.getElem?_eq_some_iff.mp present'
    obtain ⟨i, place⟩ := places.bijective.surjective ⟨i', inside'⟩
    have same : rows.get i = row := by
      rw [← places.same i, place]
      exact row'
    have number : places.renumber (.ofRow i) = .ofRow i' := by
      rw [places.renumber_ofRow bounded, place]
    rw [← number, Rule.ofRow_renumber] at accepted'
    cases accepted : Rule.ofRow (.ofRow i) row with
    | error reason => simp [accepted, Except.map] at accepted'
    | ok r =>
        refine ⟨r, mem_readRules.mpr ⟨i, row, ?_, accepted⟩, ?_⟩
        · exact List.getElem?_eq_some_iff.mpr ⟨i.isLt, same⟩
        · simpa [accepted, Except.map] using accepted'
  · intro h
    obtain ⟨r, member, rfl⟩ := h
    obtain ⟨i, row, present, accepted⟩ := mem_readRules.mp member
    obtain ⟨inside, row'⟩ := List.getElem?_eq_some_iff.mp present
    refine mem_readRules.mpr ⟨places.place ⟨i, inside⟩, row, ?_, ?_⟩
    · exact List.getElem?_eq_some_iff.mpr ⟨Fin.isLt _, (places.same ⟨i, inside⟩).trans row'⟩
    · rw [← places.renumber_ofRow bounded, Rule.ofRow_renumber, accepted]
      rfl

/-- Places are different, so different rules keep different numbers. -/
theorem renumber_inj (places : RowPlaces rows rows') (bounded : rows.length ≤ 2 ^ 32)
    {r s : Rule} (member : r ∈ readRules rows) (member' : s ∈ readRules rows)
    (same : places.renumber r.id = places.renumber s.id)
    : r.id = s.id := by
  obtain ⟨i, row, present, accepted⟩ := mem_readRules.mp member
  obtain ⟨j, row', present', accepted'⟩ := mem_readRules.mp member'
  obtain ⟨inside, -⟩ := List.getElem?_eq_some_iff.mp present
  obtain ⟨inside', -⟩ := List.getElem?_eq_some_iff.mp present'
  have length := places.length_eq
  have number := places.renumber_ofRow bounded ⟨i, inside⟩
  have number' := places.renumber_ofRow bounded ⟨j, inside'⟩
  rw [Rule.id_of_ofRow accepted, Rule.id_of_ofRow accepted'] at same ⊢
  have placed : places.place ⟨i, inside⟩ = places.place ⟨j, inside'⟩ :=
    Fin.ext ((RuleId.ofRow_inj (by omega) (by omega)).mp
      (number.symm.trans (same.trans number')))
  rw [Fin.mk.inj (places.bijective.injective placed)]

/-- A sheet with its rows in another order is read as a book in which the rules are rearranged. -/
theorem rearranged (places : RowPlaces rows rows') (bounded : rows.length ≤ 2 ^ 32)
    (differ : PrioritiesDiffer rows)
    : RuleBook.Rearranged places.renumber (.ofRules (readRules rows))
        (.ofRules (readRules rows')) := by
  have bounded' : rows'.length ≤ 2 ^ 32 := places.length_eq ▸ bounded
  have unique := (rowsAscend_readRules bounded).nodup
  have unique' := (rowsAscend_readRules bounded').nodup
  have nodup : ((readRules rows).map (Rule.renumber places.renumber)).Nodup := by
    refine List.Nodup.map_on ?_ (unique.of_map _)
    intro r member s member' same
    have ids := places.renumber_inj bounded member member' (congrArg Rule.id same)
    exact List.inj_on_of_nodup_map unique member member' ids
  have perm : (readRules rows').Perm ((readRules rows).map (.renumber places.renumber)) := by
    rw [List.perm_ext_iff_of_nodup (unique'.of_map _) nodup]
    intro r'
    rw [places.mem_readRules_iff bounded, List.mem_map]
  have entered := RuleBook.rules_ofRules_perm (readRules rows)
  have entered' := RuleBook.rules_ofRules_perm (readRules rows')
  exact {
    filed := RuleBook.filed_ofRules _
    filed' := RuleBook.filed_ofRules _
    perm := entered'.trans (perm.trans (entered.map _).symm)
    unique := (entered.map _).nodup_iff.mpr unique
    unique' := (entered'.map _).nodup_iff.mpr unique'
    decided := (entered.map _).nodup_iff.mpr differ.nodup_priorities
  }

end RowPlaces

-- -----------------------------------------------------------------------------------------------
-- Compiling rows in another order

namespace RuleBook.Rearranged

variable {number : RuleId → RuleId} {book book' : RuleBook}

theorem hasTarget_eq (rearranged : Rearranged number book book')
    : book'.hasTarget = book.hasTarget := by
  funext f
  rw [Bool.eq_iff_iff, rearranged.filed.hasTarget_iff, rearranged.filed'.hasTarget_iff]
  simp only [rearranged.mem_rules_iff]
  exact ⟨by grind [Rule.target_renumber], by grind [Rule.target_renumber]⟩

/-- Sorted, rearranged books differ in the numbers of rules only. -/
theorem sorted_eq (rearranged : Rearranged number book book')
    : book'.sorted = book.sorted.renumber number := by
  apply rearranged.filed'.sorted.ext rearranged.filed.sorted.renumber
  intro f
  have perm : (book'.rulesFor f).Perm ((book.rulesFor f).map (.renumber number)) := by
    rw [rearranged.filed'.rulesFor_eq, rearranged.filed.rulesFor_eq]
    refine (rearranged.perm.filter _).trans (.of_eq ?_)
    rw [List.filter_map]
    rfl
  have decided : ((book'.rulesFor f).map (·.priority)).Nodup := by
    refine (perm.map _).nodup_iff.mpr ?_
    rw [List.map_map, rearranged.filed.rulesFor_eq]
    exact rearranged.decided.sublist (List.filter_sublist.map _)
  rw [rulesFor_renumber, rulesFor_sorted, rulesFor_sorted, ← sortByPriority_renumber]
  exact sortByPriority_of_perm perm decided

/-- The tables of rearranged books differ in the numbers of rules only. -/
theorem ofBook_eq (rearranged : Rearranged number book book') (order : List Field)
    (descriptions : FieldMap String)
    : RuleTable.ofBook book' order descriptions
      = (RuleTable.ofBook book order descriptions).renumber number := by
  simp only [RuleTable.ofBook, RuleTable.renumber, rearranged.hasTarget_eq, rearranged.sorted_eq]

end RuleBook.Rearranged

/-- The rows of a sheet in another order compile to the same table, up to the numbers of its rules,
with the same rules given up in the same order. The table then derives the same values.
-/
theorem compile_permuted {rows rows' : List Row} (bounded : rows.length ≤ 2 ^ 32)
    (perm : rows.Perm rows') (differ : PrioritiesDiffer rows)
    (descriptions : List (String × String))
    : Nonempty (RowPlaces rows rows')
      ∧ ∀ places : RowPlaces rows rows',
          ∃ c c',
            compile .lowestPriority rows descriptions = .ok c
            ∧ compile .lowestPriority rows' descriptions = .ok c'
            ∧ c'.table = c.table.renumber places.renumber
            ∧ c'.report.removed = c.report.removed.map (.renumber places.renumber)
            ∧ ∀ r, (c'.table.infer r).values = (c.table.infer r).values := by
  refine ⟨nonempty_rowPlaces perm, fun places => ?_⟩
  have course := course_settledRules .lowestPriority rows
  have course' := course_settledRules .lowestPriority rows'
  obtain ⟨removed, left⟩ := course.rearranged course' (places.rearranged bounded differ)
  have resolved := course.dilemma_lowestPriority (RuleBook.filed_ofRules _)
  have resolved' := course'.dilemma_lowestPriority (RuleBook.filed_ofRules _)
  obtain ⟨order, found⟩ := (course.acyclic resolved).exists_evaluationOrder
  have found' := left.alike.evaluationOrder_eq.symm.trans found
  have table := left.ofBook_eq order (describe descriptions)
  refine ⟨_, _, compile_eq_ok_iff.mpr ⟨order, resolved, found, rfl⟩,
    compile_eq_ok_iff.mpr ⟨order, resolved', found', rfl⟩, table, removed, fun r => ?_⟩
  rw [table]
  exact RuleTable.values_infer_renumber places.renumber _ r

/-- A sheet with two cycles and two faulty rows of the same text. -/
def decidedRows : List Row :=
  [
    { formula := "hip = waist + belt", priority := 3 },
    { formula := "waist is narrow" },
    { formula := "waist = hip - belt", priority := 1 },
    { formula := "bust = hip + waist", priority := 4 },
    { formula := "waist is narrow" },
    { formula := "belt = waist - bust", priority := 2 }
  ]

theorem decidedRows_compile_permuted
    : decidedRows.length ≤ 2 ^ 32
      ∧ decidedRows.Perm decidedRows.reverse
      ∧ PrioritiesDiffer decidedRows
      ∧ ∃ (places : RowPlaces decidedRows decidedRows.reverse) (c c' : CompiledSheet),
          compile .lowestPriority decidedRows [] = .ok c
          ∧ compile .lowestPriority decidedRows.reverse [] = .ok c'
          ∧ c'.table = c.table.renumber places.renumber
          ∧ c'.report.removed = c.report.removed.map (.renumber places.renumber) := by
  have bounded : decidedRows.length ≤ 2 ^ 32 := by decide
  have perm : decidedRows.Perm decidedRows.reverse := (List.reverse_perm decidedRows).symm
  have differ : PrioritiesDiffer decidedRows := by decide +kernel
  obtain ⟨⟨places⟩, alike⟩ := compile_permuted bounded perm differ []
  obtain ⟨c, c', compiled, compiled', table, removed, -⟩ := alike places
  exact ⟨bounded, perm, differ, places, c, c', compiled, compiled', table, removed⟩

end MeasureSheet
