import MeasureSheet.Proofs.Compilation.Stages
import MeasureSheet.Proofs.DependencyGraph.Ordering
import MeasureSheet.Proofs.RuleTable.Acceptance

/-! Well-formed tables. A book without cycles makes one with every order of its graph, and the
default policy leaves such a book of any sheet.
-/

namespace MeasureSheet

/-- What a table needs to be evaluated in one pass: the order lists the targets once, every target
has candidates of its own in strictly ascending order, bases stand before the targets that are
derived from them, and nothing depends on itself.
-/
structure RuleTable.WellFormed (t : RuleTable) : Prop where
  unique : t.order.Nodup
  targets : ∀ f, f ∈ t.order ↔ ∃ r ∈ t.book.rules, r.target = f
  nonempty : ∀ p ∈ t.book.filed.entries, p.2 ≠ []
  ownTarget : ∀ p ∈ t.book.filed.entries, ∀ r ∈ p.2, r.target = p.1
  ascending : ∀ p ∈ t.book.filed.entries, p.2.Pairwise Rule.Precedes
  basesFirst
    : ∀ r ∈ t.book.rules,
      ∀ base ∈ r.inputs,
        base ∈ t.order → t.order.idxOf base < t.order.idxOf r.target
  direct : ∀ r ∈ t.book.rules, r.target ∉ r.inputs
  acyclic : t.graph.Acyclic
  accepted : t.check = .ok ()

-- -----------------------------------------------------------------------------------------------
-- The table of a book

/-- A field that is kept stays before all that it was before, by induction on the list. -/
theorem idxOf_filter_lt {order : List Field} {kept : Field → Bool} {base target : Field}
    (keptBase : kept base) (before : order.idxOf base < order.idxOf target)
    : (order.filter kept).idxOf base < (order.filter kept).idxOf target := by
  induction order with
  | nil => simp at before
  | cons f rest ih =>
      have later : f ≠ target := by
        rintro rfl
        simp at before
      by_cases here : f = base
      · subst here
        rw [List.filter_cons_of_pos keptBase, List.idxOf_cons_self, List.idxOf_cons_ne _ later]
        exact Nat.succ_pos _
      · rw [List.idxOf_cons_ne _ here, List.idxOf_cons_ne _ later] at before
        have inRest := ih (Nat.lt_of_succ_lt_succ before)
        cases keptHere : kept f with
        | false => rwa [List.filter_cons_of_neg (by simp [keptHere])]
        | true =>
            rw [List.filter_cons_of_pos keptHere, List.idxOf_cons_ne _ here,
              List.idxOf_cons_ne _ later]
            exact Nat.succ_lt_succ inRest

namespace RuleBook

variable {book : RuleBook} {order : List Field}

/-- Of an order of all fields the part that the book has rules for are the targets of its rules. -/
theorem Filed.mem_filter_hasTarget (filed : book.Filed) (perm : order.Perm book.graph.fields)
    {f : Field}
    : f ∈ order.filter book.hasTarget ↔ ∃ r ∈ book.rules, r.target = f := by
  rw [List.mem_filter, filed.hasTarget_iff]
  constructor
  · exact fun ⟨_, has⟩ => has
  · intro h
    obtain ⟨r, member, rfl⟩ := h
    exact ⟨perm.mem_iff.mpr (target_mem_fields member), r, member, rfl⟩

/-- Targets among the bases of a rule stay before its target when other fields are left out. -/
theorem idxOf_base_lt (perm : order.Perm book.graph.fields)
    (basesFirst : book.graph.BasesFirst order) {r : Rule} (member : r ∈ book.rules) {base : Field}
    (input : base ∈ r.inputs) (ordered : base ∈ order.filter book.hasTarget)
    : (order.filter book.hasTarget).idxOf base
      < (order.filter book.hasTarget).idxOf r.target := by
  have inOrder := perm.mem_iff.mpr (target_mem_fields member)
  have before := basesFirst r.target inOrder base (derives_of_mem_inputs member input)
  exact idxOf_filter_lt (List.mem_filter.mp ordered).2 before

end RuleBook

/-- The table of a book is accepted with every order of the book's graph. -/
theorem RuleTable.check_ofBook {book : RuleBook} {order : List Field} (filed : book.Filed)
    (found : book.graph.evaluationOrder = .ok order) (descriptions : FieldMap String)
    : (RuleTable.ofBook book order descriptions).check = .ok () := by
  obtain ⟨perm, basesFirst⟩ := DependencyGraph.evaluationOrder_spec found
  refine check_eq_ok_iff_coherent.mpr {
    unique := (perm.nodup_iff.mpr (DependencyGraph.nodup_fields _)).filter _
    targets := fun f => ?_
    sorted := fun p entry => ?_
    ownTarget := filed.sorted.ownTarget
    basesFirst := fun p entry r inside base input ordered => ?_
  }
  · change f ∈ order.filter book.hasTarget ↔ book.sorted.hasTarget f
    rw [filed.mem_filter_hasTarget perm, filed.sorted.hasTarget_iff]
    simp only [book.rules_sorted_perm.mem_iff]
  · obtain ⟨q, -, rfl⟩ := RuleBook.mem_entries_sorted.mp entry
    exact pairwise_priority_sortByPriority q.2
  · have present : r ∈ book.rules :=
      book.rules_sorted_perm.subset (RuleBook.mem_rules.mpr ⟨p, entry, inside⟩)
    rw [← filed.sorted.ownTarget p entry r inside]
    exact RuleBook.idxOf_base_lt perm basesFirst present input ordered

/-- A book without cycles, whose rules of one target stand in the order of their rows, makes a
well-formed table with every order of its graph.
-/
theorem RuleTable.wellFormed_ofBook {book : RuleBook} {order : List Field}
    (filed : book.Filed) (ascend : ∀ f, RowsAscend (book.rulesFor f))
    (acyclic : book.graph.Acyclic) (found : book.graph.evaluationOrder = .ok order)
    (descriptions : FieldMap String)
    : (RuleTable.ofBook book order descriptions).WellFormed := by
  obtain ⟨perm, basesFirst⟩ := DependencyGraph.evaluationOrder_spec found
  have mem_sorted {r : Rule} : r ∈ book.sorted.rules ↔ r ∈ book.rules :=
    book.rules_sorted_perm.mem_iff
  have unique : (order.filter book.hasTarget).Nodup :=
    (perm.nodup_iff.mpr (DependencyGraph.nodup_fields _)).filter _
  have targets (f : Field)
      : f ∈ order.filter book.hasTarget ↔ ∃ r ∈ book.sorted.rules, r.target = f := by
    simp only [filed.mem_filter_hasTarget perm, mem_sorted]
  refine {
    unique
    targets
    nonempty := filed.sorted.nonempty
    ownTarget := filed.sorted.ownTarget
    ascending := fun p => RuleBook.pairwise_entries_sorted ascend
    basesFirst := fun r member _ => RuleBook.idxOf_base_lt perm basesFirst (mem_sorted.mp member)
    direct := fun r member input => acyclic r.target (Relation.TransGen.single ?_)
    acyclic := acyclic.mono (RuleBook.dependencies_graph_subset book.rules_sorted_perm.subset)
    accepted := RuleTable.check_ofBook filed found descriptions
  }
  exact RuleBook.derives_of_mem_inputs (mem_sorted.mp member) input

/-- The rules of one target that are left stand in the order of their rows. -/
theorem rowsAscend_settledRules {rows : List Row} (bounded : rows.length ≤ 2 ^ 32)
    (choose : RemovalPolicy) (f : Field)
    : RowsAscend ((settledRules choose rows).book.rulesFor f) := by
  have filed := RuleBook.filed_ofRules (readRules rows)
  have kept := (course_settledRules choose rows).rulesFor_sublist filed f
  rw [RuleBook.rulesFor_ofRules] at kept
  exact ((rowsAscend_readRules bounded).filter _).sublist kept

/-- With the default policy every sheet compiles, to a well-formed table: no cycle is left
unresolved, and then there is an order. The table has the rules that are left, sorted, and of the
order the fields that have rules.
-/
theorem compile_lowestPriority {rows : List Row} (bounded : rows.length ≤ 2 ^ 32)
    (descriptions : List (String × String))
    : ∃ c book order,
        compile .lowestPriority rows descriptions = .ok c
        ∧ c.table.WellFormed
        ∧ (compileRun .lowestPriority rows descriptions).untangling.outcome = .ok book
        ∧ book.graph.evaluationOrder = .ok order
        ∧ c.table.book = book.sorted
        ∧ c.table.order = order.filter book.hasTarget := by
  have course := course_settledRules .lowestPriority rows
  have resolved := course.dilemma_lowestPriority (RuleBook.filed_ofRules _)
  have acyclic := course.acyclic resolved
  obtain ⟨order, found⟩ := acyclic.exists_evaluationOrder
  have outcome
      : (compileRun .lowestPriority rows descriptions).untangling.outcome
        = .ok (settledRules .lowestPriority rows).book := by
    change (settledRules .lowestPriority rows).outcome = _
    rw [Untangling.outcome, resolved]
  refine ⟨_, _, order, compile_eq_ok_iff.mpr ⟨order, resolved, found, rfl⟩, ?_, outcome, found,
    rfl, rfl⟩
  exact RuleTable.wellFormed_ofBook (filed_settledRules _ rows)
    (rowsAscend_settledRules bounded .lowestPriority) acyclic found _

/-- A sheet with cycles that share rules, two rules for one dependency and two faulty rows. -/
def crossedRows : List Row :=
  [
    { formula := "hip = waist + belt", priority := 2 },
    { formula := "hip = waist - bust", priority := 2 },
    { formula := "waist = hip - belt", priority := 2 },
    { formula := "bust = hip + waist", priority := 1 },
    { formula := "calf = calf + thigh" },
    { formula := "waist is narrow" }
  ]

theorem crossedRows_compile
    : crossedRows.length ≤ 2 ^ 32
      ∧ ∃ c, compile .lowestPriority crossedRows [] = .ok c ∧ c.table.WellFormed := by
  have bounded : crossedRows.length ≤ 2 ^ 32 := by decide
  obtain ⟨c, -, -, compiled, wellFormed, -⟩ := compile_lowestPriority bounded []
  exact ⟨bounded, c, compiled, wellFormed⟩

end MeasureSheet
