import MeasureSheet.Proofs.Compilation.WellFormedness
import MeasureSheet.Proofs.Format.Tables
import MeasureSheet.Proofs.Formula.Coefficients

/-! Compiled tables as texts. What compiles is accepted, so a compiled table comes back from its
text up to its numbers. These need not come back: the reader of numbers is not exact, and the
inverse of a very small divisor is infinite.
-/

namespace MeasureSheet

open Json (Readable ReadsBack reread)

variable {choose : RemovalPolicy} {rows : List Row} {descriptions : List (String × String)}
  {c : CompiledSheet}

/-- Whatever the policy, a sheet that compiles makes a table that is accepted. -/
theorem check_of_compile (compiled : compile choose rows descriptions = .ok c)
    : c.table.check = .ok () := by
  obtain ⟨order, -, found, rfl⟩ := compile_eq_ok_iff.mp compiled
  exact RuleTable.check_ofBook (filed_settledRules choose rows) found _

/-- A compiled table is loaded from its own text exactly when the text of each of its numbers is
read, and what is loaded is the table with the numbers that are read. It is the table itself exactly
when every number is finite and comes back, and it is never refused as inconsistent.
-/
theorem compiled_isReloaded_iff (compiled : compile choose rows descriptions = .ok c)
    : (∀ t,
        RuleTable.load c.table.save = .ok t
        ↔ (∀ x ∈ c.table.numbers, Readable x) ∧ c.table.mapNumbers reread = t)
      ∧ (RuleTable.load c.table.save = .ok c.table ↔ ∀ x ∈ c.table.numbers, ReadsBack x)
      ∧ ∀ cause, RuleTable.load c.table.save ≠ .error (.inconsistent cause) := by
  have accepted := check_of_compile compiled
  exact ⟨fun t => RuleTable.load_save_eq_ok_iff accepted, RuleTable.load_save_iff accepted,
    RuleTable.load_save_ne_inconsistent accepted⟩

/-- A chain of relations of all kinds, with numbers that come back. -/
def plainRows : List Row :=
  [
    { formula := "waist = belt + 12.5", priority := 1, notes := some " loose \"fit\" " },
    { formula := "hip = waist * 1.2", priority := 2, tolerance := some 0.25 },
    { formula := "hip = bust / 0.5", priority := -3 },
    { formula := "bust = waist - belt" },
    { formula := "belt = hip - 3" }
  ]

theorem plainRows_isReloaded
    : ∃ c,
        compile .lowestPriority plainRows [("hip", "widest")] = .ok c
        ∧ RuleTable.load c.table.save = .ok c.table := by
  obtain ⟨c, compiled, numbers⟩ : ∃ c,
      compile .lowestPriority plainRows [("hip", "widest")] = .ok c
      ∧ decide (∀ x ∈ c.table.numbers, ReadsBack x) :=
    exists_of_run (by decide +kernel)
  obtain ⟨-, same, -⟩ := compiled_isReloaded_iff compiled
  exact ⟨c, compiled, same.mpr (of_decide_eq_true numbers)⟩

/-- One row, of which the inverse is read back as the float next to it. -/
def eleventhRows : List Row :=
  [{ formula := "a = b / 11", priority := 1 }]

/-- One row, which divides by a tiny number. -/
def tinyRows : List Row :=
  [{ formula := String.ofList ("a=b/".toList ++ tinyDivisor) }]

/-- The rule that is read from the row with a tiny divisor. -/
def tinyRule : Rule where
  id := ⟨0⟩
  target := .named "a"
  relation := .ratio (.named "b") (1.0 / 0.0)
  priority := 0

theorem readRules_tinyRows : readRules tinyRows = [tinyRule] := by
  simp only [readRules, readRows, tinyRows, List.zipIdx_singleton, List.map_cons, List.map_nil,
    Rule.ofRow, parse_tinyDivisor]
  rfl

theorem exists_compile_tinyRows
    : ∃ c,
        compile .lowestPriority tinyRows [] = .ok c
        ∧ ¬ ∀ x ∈ c.table.numbers, Readable x := by
  have settled
      : settledRules .lowestPriority tinyRows
        = (RuleBook.ofRules [tinyRule]).settle .lowestPriority := by
    rw [settledRules, readRules_tinyRows]
  refine ⟨_, compile_eq_ok_iff.mpr ⟨[.named "b", .named "a"], ?_, ?_, rfl⟩, ?_⟩
  all_goals
    rw [settled]
    decide +kernel

theorem eleventhRows_tinyRows_areNotReloaded
    : (¬ ∀ (choose : RemovalPolicy) (rows : List Row) (descriptions : List (String × String))
        (c : CompiledSheet),
        compile choose rows descriptions = .ok c → RuleTable.load c.table.save = .ok c.table)
      ∧ ¬ ∀ (choose : RemovalPolicy) (rows : List Row) (descriptions : List (String × String))
        (c : CompiledSheet),
        compile choose rows descriptions = .ok c → ∃ t, RuleTable.load c.table.save = .ok t := by
  constructor
  · intro reloaded
    obtain ⟨c, compiled, numbers⟩ : ∃ c,
        compile .lowestPriority eleventhRows [] = .ok c
        ∧ decide (¬ ∀ x ∈ c.table.numbers, ReadsBack x) :=
      exists_of_run (by decide +kernel)
    have back := reloaded .lowestPriority eleventhRows [] c compiled
    exact of_decide_eq_true numbers ((RuleTable.load_save_iff (check_of_compile compiled)).mp back)
  · intro loaded
    obtain ⟨c, compiled, unreadable⟩ := exists_compile_tinyRows
    obtain ⟨t, found⟩ := loaded .lowestPriority tinyRows [] c compiled
    exact unreadable ((RuleTable.load_save_eq_ok_iff (check_of_compile compiled)).mp found).1

end MeasureSheet
