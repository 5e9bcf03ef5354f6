import MeasureSheet.CycleRemoval
import MeasureSheet.Formula
import MeasureSheet.LogRecord
import MeasureSheet.RuleTable

/-! Compilation of a rule sheet: its rows are read, dependency cycles are broken, and the targets
are put into evaluation order. Rows that are no rules are left out and accounted for.
-/

namespace MeasureSheet

-- -----------------------------------------------------------------------------------------------
-- Rows

/-- A row that is no rule. -/
structure RejectedRow where
  row : Nat
  formula : String
  reason : FormulaError
deriving DecidableEq

/-- A row with its number, read as a rule. -/
structure ReadRow where
  row : Nat
  source : Row
  result : Except FormulaError Rule

namespace ReadRow

def rule? (r : ReadRow) : Option Rule :=
  match r.result with
  | .ok rule => some rule
  | .error _ => none

def rejected? (r : ReadRow) : Option RejectedRow :=
  match r.result with
  | .ok _ => none
  | .error reason => some { row := r.row, formula := r.source.formula, reason }

end ReadRow

/-- Reads the rows of a sheet, of which the first has number zero. -/
def readRows (rows : List Row) : List ReadRow :=
  rows.zipIdx.map fun (source, row) =>
    { row, source, result := Rule.ofRow (RuleId.ofRow row) source }

-- -----------------------------------------------------------------------------------------------
-- What became of the rows

/-- The rows of a sheet that its table does not hold as rules. -/
structure SheetReport where
  /-- The rows that are no rules, in order. -/
  rejected : List RejectedRow
  /-- The rules given up for dependency cycles, in order. -/
  removed : List Rule

namespace SheetReport

def isClean (report : SheetReport) : Bool :=
  report.rejected.isEmpty && report.removed.isEmpty

def rejectedMessage (s : RejectedRow) : String :=
  s!"Skipped formula '{s.formula}' (row {s.row}): {s.reason.message}"

def removedMessage (r : Rule) : String :=
  s!"Removed rule {r.id.text} '{r.text}' to resolve a dependency cycle"

/-- A line for each rejected row, then one for each removed rule. -/
def messages (report : SheetReport) : List String :=
  report.rejected.map rejectedMessage ++ report.removed.map removedMessage

end SheetReport

-- -----------------------------------------------------------------------------------------------
-- Compilation

structure CompiledSheet where
  table : RuleTable
  report : SheetReport

/-- Descriptions by field; of two for one field the later counts. -/
def describe (descriptions : List (String × String)) : FieldMap String :=
  FieldMap.ofList (descriptions.map fun p => (Field.named p.1, Text.trimmed p.2))

/-- Breaks the cycles of a rule book, if it has any. -/
def RuleBook.settle (book : RuleBook) (choose : RemovalPolicy) : Untangling :=
  if book.graph.isAcyclic then { removals := [], dilemma := none, book, graph := book.graph }
  else book.untangle choose

/-- A compilation in all its steps. -/
structure CompileRun where
  rows : List ReadRow
  /-- The rules that were read, filed by target. -/
  entered : RuleBook
  untangling : Untangling
  result : Except UnresolvableCycle CompiledSheet

/-- Puts the targets of the rules that are left into order. -/
def Untangling.compile (untangling : Untangling) (rejected : List RejectedRow)
    (descriptions : FieldMap String)
    : Except UnresolvableCycle CompiledSheet := do
  let book ← untangling.outcome
  match untangling.graph.evaluationOrder with
  | .error e => .error { fields := e.unordered }
  | .ok order =>
      return {
        table := RuleTable.ofBook book order descriptions,
        report := { rejected, removed := untangling.removed }
      }

/-- Compiles the rows of a sheet, with the policy that decides on rules in cycles. -/
def compileRun (choose : RemovalPolicy) (rows : List Row) (descriptions : List (String × String))
    : CompileRun :=
  let read := readRows rows
  let entered := RuleBook.ofRules (read.filterMap ReadRow.rule?)
  let untangling := entered.settle choose
  {
    rows := read,
    entered,
    untangling,
    result := untangling.compile (read.filterMap ReadRow.rejected?) (describe descriptions)
  }

/-- Compiles the rows of a sheet. -/
def compile (choose : RemovalPolicy) (rows : List Row) (descriptions : List (String × String))
    : Except UnresolvableCycle CompiledSheet :=
  (compileRun choose rows descriptions).result

-- -----------------------------------------------------------------------------------------------
-- What a compilation reports

namespace ReadRow

def logRecord (r : ReadRow) : LogRecord :=
  match r.result with
  | .ok rule =>
      {
        level := .debug,
        target := "compiler",
        message := s!"Parsed rule {rule.id.text}: {rule.text}"
      }
  | .error reason =>
      {
        level := .warn,
        target := "compiler",
        message := SheetReport.rejectedMessage { row := r.row, formula := r.source.formula, reason }
      }

end ReadRow

def Removal.logRecord (r : Removal) : LogRecord where
  level := .warn
  target := "compiler::resolver"
  message :=
    let fields := ", ".intercalate (r.dilemma.fields.map fun f => "\"" ++ f.text ++ "\"")
    s!"Removed rule {r.rule.id.text} '{r.rule.text}' to break cycle through [{fields}]"

namespace CompileRun

def summary (c : CompiledSheet) : LogRecord where
  level := .info
  target := "compiler"
  message :=
    let rules := c.table.ruleCount
    let targets := c.table.targetCount
    let rejected := c.report.rejected.length
    s!"Compiled {rules} rule(s) for {targets} measurement(s); skipped {rejected}"

/-- What is reported when the rules that were read have cycles. -/
def cycleRecords (run : CompileRun) : List LogRecord :=
  if run.entered.graph.isAcyclic then []
  else
    {
      level := .info,
      target := "compiler",
      message := "Circular dependencies found, removing low-priority rules"
    } :: run.untangling.removals.map Removal.logRecord
      ++ match run.untangling.dilemma with
        | some _ => []
        | none =>
            let count := run.untangling.removals.length
            [{
              level := .info,
              target := "compiler",
              message := s!"Removed {count} rule(s) to fix cycles"
            }]

/-- Everything that a compilation reports, in order. -/
def logRecords (run : CompileRun) : List LogRecord :=
  run.rows.map ReadRow.logRecord ++ run.cycleRecords
    ++ match run.result with
      | .ok c => [summary c]
      | .error _ => []

end CompileRun

end MeasureSheet
