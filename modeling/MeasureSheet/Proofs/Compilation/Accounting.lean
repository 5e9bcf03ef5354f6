import MeasureSheet.Proofs.Compilation.Stages

/-! What became of the rows of a sheet. Whatever the policy gives up, each row is accounted for
once, as a rejected row, as a rule that was given up or as a rule of the table.
-/

namespace MeasureSheet

/-- A compiled sheet accounts for rows: each occurs once, rejected, removed or in the table; the
rejected rows are those that cannot be read, each with its formula and the reason; all others are
the rules that they are read as; and the report has a line for each row that is not in the table.
-/
structure AccountsFor (c : CompiledSheet) (rows : List Row) : Prop where
  once
    : ∀ i < rows.length,
        (c.report.rejected.map (·.row)).count i
          + (c.report.removed.map (·.id)).count (.ofRow i)
          + (c.table.book.rules.map (·.id)).count (.ofRow i)
        = 1
  rejected
    : ∀ s,
        s ∈ c.report.rejected
        ↔ ∃ row,
            rows[s.row]? = some row
            ∧ s.formula = row.formula
            ∧ Rule.ofRow (.ofRow s.row) row = .error s.reason
  unchanged
    : ∀ i row,
        rows[i]? = some row
        → ∀ r,
            r.id = .ofRow i ∧ (r ∈ c.report.removed ∨ r ∈ c.table.book.rules)
            ↔ Rule.ofRow (.ofRow i) row = .ok r
  ofRows : ∀ r, r ∈ c.report.removed ∨ r ∈ c.table.book.rules → ∃ i < rows.length, r.id = .ofRow i
  filed : ∀ f r, r ∈ c.table.candidates f ↔ r ∈ c.table.book.rules ∧ r.target = f
  ascending : c.report.rejected.Pairwise fun s s' => s.row < s'.row
  lines
    : c.report.messages
      = c.report.rejected.map SheetReport.rejectedMessage
        ++ c.report.removed.map SheetReport.removedMessage

/-- Compilation accounts for the rows of a sheet: a run of removals keeps all rules together. -/
theorem compile_accountsFor {choose : RemovalPolicy} {rows : List Row}
    {descriptions : List (String × String)} {c : CompiledSheet} (bounded : rows.length ≤ 2 ^ 32)
    (compiled : compile choose rows descriptions = .ok c)
    : AccountsFor c rows := by
  obtain ⟨order, -, -, rfl⟩ := compile_eq_ok_iff.mp compiled
  have perm := perm_settledRules choose rows
  have filed := filed_settledRules choose rows
  generalize settledRules choose rows = u at perm filed
  have kept {r : Rule} : r ∈ u.removed ∨ r ∈ u.book.sorted.rules ↔ r ∈ readRules rows := by
    rw [← List.mem_append, perm.mem_iff]
  constructor
  case once =>
    intro i inside
    have ids := (perm.map (·.id)).count_eq (.ofRow i)
    rw [List.map_append, List.count_append] at ids
    rw [Nat.add_assoc]
    exact ids ▸ count_rows bounded inside
  case rejected => exact fun s => mem_rejectedRows
  case unchanged =>
    intro i row present r
    exact (and_congr_right' kept).trans (mem_readRules_at bounded present)
  case ofRows =>
    intro r member
    obtain ⟨i, row, present, accepted⟩ := mem_readRules.mp (kept.mp member)
    exact ⟨i, (List.getElem?_eq_some_iff.mp present).1, Rule.id_of_ofRow accepted⟩
  case filed => exact fun f r => filed.sorted.mem_rulesFor
  case ascending => exact pairwise_rejectedRows rows
  case lines => rfl

/-- Gives up the candidate seen last at first, and later the one seen first. -/
def turningPolicy : RemovalPolicy :=
  fun earlier candidates =>
    (if earlier.isEmpty then candidates.getLast? else candidates.head?).map (·.id)

/-- A sheet with two cycles, a row that is no rule and a row that repeats another. -/
def tangledRows : List Row :=
  [
    { formula := "hip = waist + belt" },
    { formula := "waist = hip - belt", priority := 3 },
    { formula := "nonsense" },
    { formula := "bust = hip + waist" },
    { formula := "hip = bust - waist", priority := 2 },
    { formula := "hip = waist + belt" }
  ]

theorem tangledRows_accountedFor
    : tangledRows.length ≤ 2 ^ 32
      ∧ ∃ c, compile turningPolicy tangledRows [] = .ok c ∧ AccountsFor c tangledRows := by
  have bounded : tangledRows.length ≤ 2 ^ 32 := by decide
  have succeeds : (compile turningPolicy tangledRows []).toBool := by decide +kernel
  cases compiled : compile turningPolicy tangledRows [] with
  | error e => simp [compiled, Except.toBool] at succeeds
  | ok c => exact ⟨bounded, c, rfl, compile_accountsFor bounded compiled⟩

end MeasureSheet
