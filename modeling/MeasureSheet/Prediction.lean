import MeasureSheet.Record

/-! Predictors: models that turn the supplied values of a record into values for other fields. -/

namespace MeasureSheet

inductive PredictorFailure where
  | failed (reason : String)
  | wrongCount (expected actual : Nat)
deriving DecidableEq

def PredictorFailure.message : PredictorFailure → String
  | failed reason => s!"Predictor failed: {reason}"
  | wrongCount expected actual =>
      s!"Predictor returned {actual} value(s) for {expected} target(s)"

structure Predictor where
  /-- The fields whose values the model takes. -/
  inputs : List Field
  /-- The fields whose values the model gives. -/
  targets : List Field
  /-- One value for each target, from one value for each input that is there. -/
  predict : List (Option Float) → Except PredictorFailure (List Float)

/-- The supplied values of fields. -/
def Record.features (r : Record) (inputs : List Field) : List (Option Float) :=
  inputs.map fun f => if r.isSupplied f then r.value? f else none

/-- The predicted values beside their targets. -/
def Predictor.predictions (p : Predictor) (r : Record)
    : Except PredictorFailure (List (Field × Float)) := do
  let values ← p.predict (r.features p.inputs)
  if values.length = p.targets.length then return p.targets.zip values
  else .error (.wrongCount p.targets.length values.length)

end MeasureSheet
