import MeasureSheet.Compilation
import MeasureSheet.Proofs.CycleRemoval.Course
import MeasureSheet.Proofs.RuleBook.Sorting

/-! The stages of a compilation. Every row is read as a rule with the number of the row or is
rejected, and the rules make a table when their cycles are broken and their targets have an order.
-/

namespace MeasureSheet

theorem RuleId.toNat_ofRow {row : Nat} (bounded : row < 2 ^ 32)
    : (RuleId.ofRow row).number.toNat = row :=
  UInt32.toNat_ofNat_of_lt' bounded

theorem RuleId.ofRow_lt {row later : Nat} (earlier : row < later) (bounded : later < 2 ^ 32)
    : (RuleId.ofRow row).number < (RuleId.ofRow later).number := by
  rw [UInt32.lt_iff_toNat_lt, toNat_ofRow (Nat.lt_trans earlier bounded), toNat_ofRow bounded]
  exact earlier

theorem RuleId.ofRow_inj {row row' : Nat} (bounded : row < 2 ^ 32) (bounded' : row' < 2 ^ 32)
    : RuleId.ofRow row = RuleId.ofRow row' ↔ row = row' := by
  constructor
  · intro same
    rw [← toNat_ofRow bounded, same, toNat_ofRow bounded']
  · rintro rfl
    rfl

theorem Rule.id_of_ofRow {id : RuleId} {row : Row} {r : Rule} (read : Rule.ofRow id row = .ok r)
    : r.id = id := by
  unfold Rule.ofRow at read
  cases parsed : Formula.parse row.formula with
  | error reason => simp [parsed, bind, Except.bind] at read
  | ok formula =>
      simp only [parsed, bind, Except.bind, pure, Except.pure, Except.ok.injEq] at read
      rw [← read]

-- -----------------------------------------------------------------------------------------------
-- Reading

/-- The rules that the rows of a sheet are read as. -/
def readRules (rows : List Row) : List Rule :=
  (readRows rows).filterMap ReadRow.rule?

/-- The rows of a sheet that are no rules. -/
def rejectedRows (rows : List Row) : List RejectedRow :=
  (readRows rows).filterMap ReadRow.rejected?

theorem ReadRow.rule?_eq_some_iff {read : ReadRow} {r : Rule}
    : read.rule? = some r ↔ read.result = .ok r := by
  unfold rule?
  cases read.result <;> simp

theorem ReadRow.rejected?_eq_some_iff {read : ReadRow} {s : RejectedRow}
    : read.rejected? = some s
      ↔ read.row = s.row ∧ read.source.formula = s.formula ∧ read.result = .error s.reason := by
  obtain ⟨row, formula, reason⟩ := s
  unfold rejected?
  cases read.result <;> simp

theorem mem_readRows {rows : List Row} {read : ReadRow}
    : read ∈ readRows rows
      ↔ rows[read.row]? = some read.source
        ∧ read.result = Rule.ofRow (.ofRow read.row) read.source := by
  obtain ⟨row, source, result⟩ := read
  simp only [readRows, List.mem_map, Prod.exists, List.mem_zipIdx_iff_getElem?, ReadRow.mk.injEq]
  constructor
  · intro h
    obtain ⟨source, row, present, rfl, rfl, rfl⟩ := h
    exact ⟨present, rfl⟩
  · intro h
    obtain ⟨present, rfl⟩ := h
    exact ⟨source, row, present, rfl, rfl, rfl⟩

theorem mem_readRules {rows : List Row} {r : Rule}
    : r ∈ readRules rows
      ↔ ∃ i row, rows[i]? = some row ∧ Rule.ofRow (.ofRow i) row = .ok r := by
  simp only [readRules, List.mem_filterMap, ReadRow.rule?_eq_some_iff, mem_readRows]
  constructor
  · intro h
    obtain ⟨read, ⟨present, result⟩, accepted⟩ := h
    exact ⟨read.row, read.source, present, result ▸ accepted⟩
  · intro h
    obtain ⟨i, row, present, accepted⟩ := h
    exact ⟨{ row := i, source := row, result := .ok r }, ⟨present, accepted.symm⟩, rfl⟩

theorem mem_rejectedRows {rows : List Row} {s : RejectedRow}
    : s ∈ rejectedRows rows
      ↔ ∃ row,
          rows[s.row]? = some row
          ∧ s.formula = row.formula
          ∧ Rule.ofRow (.ofRow s.row) row = .error s.reason := by
  simp only [rejectedRows, List.mem_filterMap, ReadRow.rejected?_eq_some_iff, mem_readRows]
  constructor
  · intro h
    obtain ⟨read, ⟨present, result⟩, row, formula, rejected⟩ := h
    exact ⟨read.source, row ▸ present, formula.symm, row ▸ result ▸ rejected⟩
  · intro h
    obtain ⟨row, present, formula, rejected⟩ := h
    exact ⟨{ row := s.row, source := row, result := .error s.reason }, ⟨present, rejected.symm⟩,
      rfl, formula.symm, rfl⟩

-- -----------------------------------------------------------------------------------------------
-- Order and number of the rows

theorem map_row_readRows (rows : List Row)
    : (readRows rows).map (·.row) = List.range rows.length := by
  rw [readRows, List.map_map, List.range_eq_range', ← List.zipIdx_map_snd 0 rows]
  rfl

theorem pairwise_readRows (rows : List Row)
    : (readRows rows).Pairwise fun r s => r.row < s.row := by
  rw [← List.pairwise_map, map_row_readRows]
  exact List.pairwise_lt_range

/-- Rows are rejected in their order. -/
theorem pairwise_rejectedRows (rows : List Row)
    : (rejectedRows rows).Pairwise fun s s' => s.row < s'.row := by
  refine List.pairwise_filterMap.mpr ((pairwise_readRows rows).imp ?_)
  intro read read' before s rejected s' rejected'
  rw [← (ReadRow.rejected?_eq_some_iff.mp rejected).1,
    ← (ReadRow.rejected?_eq_some_iff.mp rejected').1]
  exact before

/-- Rules are read in the order of their rows, which have different numbers. -/
theorem rowsAscend_readRules {rows : List Row} (bounded : rows.length ≤ 2 ^ 32)
    : RowsAscend (readRules rows) := by
  refine List.pairwise_filterMap.mpr ((pairwise_readRows rows).imp_of_mem ?_)
  intro read read' member member' before r accepted r' accepted'
  obtain ⟨-, result⟩ := mem_readRows.mp member
  obtain ⟨present', result'⟩ := mem_readRows.mp member'
  have inside : read'.row < rows.length := (List.getElem?_eq_some_iff.mp present').1
  rw [Rule.id_of_ofRow (result ▸ ReadRow.rule?_eq_some_iff.mp accepted),
    Rule.id_of_ofRow (result' ▸ ReadRow.rule?_eq_some_iff.mp accepted')]
  exact RuleId.ofRow_lt before (by omega)

/-- Each row that was read is a rule or rejected, but not both, by induction on what was read. -/
theorem count_reads {rows : List Row} (bounded : rows.length ≤ 2 ^ 32) {i : Nat}
    (inside : i < rows.length) {reads : List ReadRow} (own : reads ⊆ readRows rows)
    : ((reads.filterMap ReadRow.rejected?).map (·.row)).count i
        + ((reads.filterMap ReadRow.rule?).map (·.id)).count (.ofRow i)
      = (reads.map (·.row)).count i := by
  induction reads with
  | nil => rfl
  | cons read rest ih =>
      obtain ⟨member, ownRest⟩ := List.cons_subset.mp own
      obtain ⟨present, result⟩ := mem_readRows.mp member
      have insideToo : read.row < rows.length := (List.getElem?_eq_some_iff.mp present).1
      have inRest := ih ownRest
      cases outcome : read.result with
      | error reason =>
          simp only [List.filterMap_cons, ReadRow.rejected?, ReadRow.rule?, outcome, List.map_cons,
            List.count_cons, ← inRest]
          omega
      | ok r =>
          have number : r.id = .ofRow read.row := Rule.id_of_ofRow (result ▸ outcome)
          -- Numbers of rows agree for equal rows only, as they are not counted around.
          have same : (r.id == .ofRow i) = (read.row == i) := by
            rw [Bool.eq_iff_iff, beq_iff_eq, beq_iff_eq, number]
            exact RuleId.ofRow_inj (by omega) (by omega)
          simp only [List.filterMap_cons, ReadRow.rejected?, ReadRow.rule?, outcome, List.map_cons,
            List.count_cons, same, ← inRest]
          omega

/-- Every row of a sheet occurs once among the rules and the rejected rows. -/
theorem count_rows {rows : List Row} (bounded : rows.length ≤ 2 ^ 32) {i : Nat}
    (inside : i < rows.length)
    : ((rejectedRows rows).map (·.row)).count i + ((readRules rows).map (·.id)).count (.ofRow i)
      = 1 := by
  refine (count_reads bounded inside (List.Subset.refl _)).trans ?_
  rw [map_row_readRows, List.count_range]
  simp [inside]

/-- A rule has the number of the one row that it is read from. -/
theorem mem_readRules_at {rows : List Row} (bounded : rows.length ≤ 2 ^ 32) {i : Nat} {row : Row}
    (present : rows[i]? = some row) {r : Rule}
    : r.id = .ofRow i ∧ r ∈ readRules rows ↔ Rule.ofRow (.ofRow i) row = .ok r := by
  constructor
  · intro h
    obtain ⟨number, member⟩ := h
    obtain ⟨i', row', present', accepted⟩ := mem_readRules.mp member
    have inside := (List.getElem?_eq_some_iff.mp present).1
    have inside' := (List.getElem?_eq_some_iff.mp present').1
    obtain rfl : i' = i := by
      rw [Rule.id_of_ofRow accepted] at number
      exact (RuleId.ofRow_inj (by omega) (by omega)).mp number
    obtain rfl : row' = row := Option.some.inj (present'.symm.trans present)
    exact accepted
  · intro accepted
    exact ⟨Rule.id_of_ofRow accepted, mem_readRules.mpr ⟨i, row, present, accepted⟩⟩

-- -----------------------------------------------------------------------------------------------
-- From rules to a table

variable {choose : RemovalPolicy} {rows : List Row} {descriptions : List (String × String)}

/-- The book of the rules that were read, without those that were given up for its cycles. -/
def settledRules (choose : RemovalPolicy) (rows : List Row) : Untangling :=
  (RuleBook.ofRules (readRules rows)).settle choose

theorem course_settledRules (choose : RemovalPolicy) (rows : List Row)
    : Course choose [] (.ofRules (readRules rows)) (settledRules choose rows) :=
  course_settle (.ofRules (readRules rows)) choose

theorem filed_settledRules (choose : RemovalPolicy) (rows : List Row)
    : (settledRules choose rows).book.Filed :=
  (course_settledRules choose rows).filed (RuleBook.filed_ofRules _)

/-- The rules that were read are given up or left, and sorting those that are left keeps them. -/
theorem perm_settledRules (choose : RemovalPolicy) (rows : List Row)
    : ((settledRules choose rows).removed ++ (settledRules choose rows).book.sorted.rules).Perm
        (readRules rows) :=
  ((RuleBook.rules_sorted_perm _).append_left _).trans
    ((course_settledRules choose rows).perm.trans (RuleBook.rules_ofRules_perm _))

/-- A sheet compiles when no cycle is left and there is an order, and to the table of these. -/
theorem compile_eq_ok_iff {c : CompiledSheet}
    : compile choose rows descriptions = .ok c
      ↔ ∃ order,
          (settledRules choose rows).dilemma = none
          ∧ (settledRules choose rows).book.graph.evaluationOrder = .ok order
          ∧ c = {
              table := .ofBook (settledRules choose rows).book order (describe descriptions),
              report := {
                rejected := rejectedRows rows,
                removed := (settledRules choose rows).removed
              }
            } := by
  have stages
      : compile choose rows descriptions
        = (settledRules choose rows).compile (rejectedRows rows) (describe descriptions) := by
    simp only [compile, compileRun, settledRules, readRules, rejectedRows]
  rw [stages]
  have drawn := (course_settledRules choose rows).graph_eq
  generalize settledRules choose rows = u at drawn
  unfold Untangling.compile Untangling.outcome
  rw [drawn]
  cases u.dilemma with
  | some d => simp [bind, Except.bind]
  | none =>
      cases found : u.book.graph.evaluationOrder with
      | error failure => simp [bind, Except.bind]
      | ok order => simp [bind, Except.bind, pure, Except.pure, eq_comm]

/-- A run that is tested to succeed has a result that passes the test. -/
theorem exists_of_run {ε α : Type} {run : Except ε α} {test : α → Bool}
    (tested : run.toOption.any test)
    : ∃ a, run = .ok a ∧ test a := by
  cases run with
  | error e => cases tested
  | ok a => exact ⟨a, rfl, tested⟩

end MeasureSheet
