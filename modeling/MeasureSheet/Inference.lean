import MeasureSheet.LogRecord
import MeasureSheet.Record
import MeasureSheet.RuleTable

/-! Inference: the targets of a table are visited once, in evaluation order, and each unknown one is
filled by the first of its candidates that can be evaluated.
-/

namespace MeasureSheet

/-- The first rule that can be evaluated, with its value. -/
def firstApplicable? (known : Field → Option Float) (candidates : List Rule)
    : Option (RuleId × Float) :=
  candidates.findSome? fun r => (r.relation.evaluate known).map fun value => (r.id, value)

/-- A record as inference leaves it, and what inference did. -/
structure Inference where
  record : Record
  /-- The fields that were filled and the rules that filled them, in evaluation order. -/
  filled : List (Field × RuleId)
  /-- The fields for which no candidate could be evaluated, in evaluation order. -/
  unresolved : List Field

namespace Inference

def start (r : Record) : Inference where
  record := r
  filled := []
  unresolved := []

/-- Visits a target. -/
def visit (t : RuleTable) (i : Inference) (target : Field) : Inference :=
  if i.record.isKnown target then i
  else
    match firstApplicable? i.record.value? (t.candidates target) with
    | some (id, value) =>
        {
          i with
          record := i.record.store target { value, provenance := .rule id },
          filled := i.filled ++ [(target, id)]
        }
    | none => { i with unresolved := i.unresolved ++ [target] }

def logRecord (i : Inference) : LogRecord where
  level := .debug
  target := "compute::engine"
  message :=
    let filled := i.filled.length
    let unresolved := i.unresolved.length
    s!"Inference filled {filled} field(s), {unresolved} unresolved"

end Inference

namespace RuleTable

/-- Visits every target of the table in evaluation order. -/
def inference (t : RuleTable) (r : Record) : Inference :=
  t.order.foldl (Inference.visit t) (Inference.start r)

/-- The record with everything filled that the table derives. -/
def infer (t : RuleTable) (r : Record) : Record :=
  (t.inference r).record

end RuleTable

end MeasureSheet
