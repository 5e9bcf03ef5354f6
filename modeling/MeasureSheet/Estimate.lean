import MeasureSheet.Inference
import MeasureSheet.Prediction
import MeasureSheet.Settings

/-! Estimates: what rules and a predictor together say about a person of whom some measurements are
known.
-/

namespace MeasureSheet

structure Estimate where
  record : Record
  /-- The targets that neither the rules nor the predictor filled. -/
  unresolved : List Field
  findings : List Finding
deriving DecidableEq

/-- Blends predictions into a record and rounds what was not supplied. -/
def Settings.combine (s : Settings) (inferred : Record) (predictions : List (Field × Float))
    : Record :=
  let blended := inferred.blend s.weights predictions
  match s.roundTo with
  | some places => blended.rounded places.toNat
  | none => blended

/-- The estimate that follows from an inference and predictions. -/
def Settings.conclude (s : Settings) (i : Inference) (predictions : List (Field × Float))
    : Estimate :=
  let record := s.combine i.record predictions
  {
    record,
    unresolved := i.unresolved.filter fun f => !record.isKnown f,
    findings := s.findings record
  }

/-- An estimate in its steps. -/
structure EstimateRun where
  inference : Inference
  result : Except PredictorFailure Estimate

/-- Applies the rules to the known values, then the predictor, and combines the two. -/
def estimateRun (t : RuleTable) (p : Predictor) (s : Settings)
    (known : List (String × Option Float))
    : EstimateRun :=
  let inference := t.inference (Record.ofKnown known)
  {
    inference,
    result := (p.predictions inference.record).map fun predictions =>
      s.conclude inference predictions
  }

def estimate (t : RuleTable) (p : Predictor) (s : Settings) (known : List (String × Option Float))
    : Except PredictorFailure Estimate :=
  (estimateRun t p s known).result

def Finding.logRecord (f : Finding) : LogRecord where
  level := .warn
  target := "compute::hybrid"
  message := f.message

/-- What an estimate reports: its inference, then its findings. -/
def EstimateRun.logRecords (run : EstimateRun) : List LogRecord :=
  run.inference.logRecord ::
    match run.result with
    | .ok e => e.findings.map Finding.logRecord
    | .error _ => []

end MeasureSheet
