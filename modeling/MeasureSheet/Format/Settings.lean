import MeasureSheet.Format.Rules
import MeasureSheet.Settings

/-! The JSON form of settings. Everything that is left out has its default, except for the bounds of
a range.
-/

namespace MeasureSheet

open Json (Document Fault Value)
open Json.Document (asFloat asNullable asRecord asUInt32 once required)

namespace PlausibleRange

def toJson (range : PlausibleRange) : Value :=
  .object [("min", .float range.min), ("max", .float range.max)]

/-- The members of a range that have been read. -/
structure Draft where
  min : Option Float := none
  max : Option Float := none

namespace Draft

def names : List String :=
  ["min", "max"]

def member (draft : Draft) (key : String) (d : Document) : Except Fault Draft := do
  if key = "min" then return { draft with min := ← once draft.min asFloat d }
  else if key = "max" then return { draft with max := ← once draft.max asFloat d }
  else do
    d.skip
    return draft

def finish (draft : Draft) : Except Fault PlausibleRange := do
  return { min := ← required draft.min, max := ← required draft.max }

end Draft

def ofJson (d : Document) : Except Fault PlausibleRange := do
  let draft ← asRecord Draft.names Draft.member {} d
  draft.finish

end PlausibleRange

namespace BlendWeights

def toJson (w : BlendWeights) : Value :=
  .object [("model_weight", .float w.model), ("rule_weight", .float w.rule)]

/-- The members of weights that have been read. -/
structure Draft where
  model : Option Float := none
  rule : Option Float := none

namespace Draft

def names : List String :=
  ["model_weight", "rule_weight"]

def member (draft : Draft) (key : String) (d : Document) : Except Fault Draft := do
  if key = "model_weight" then return { draft with model := ← once draft.model asFloat d }
  else if key = "rule_weight" then return { draft with rule := ← once draft.rule asFloat d }
  else do
    d.skip
    return draft

def finish (draft : Draft) : BlendWeights :=
  let default : BlendWeights := {}
  { model := draft.model.getD default.model, rule := draft.rule.getD default.rule }

end Draft

def ofJson (d : Document) : Except Fault BlendWeights :=
  (asRecord Draft.names Draft.member {} d).map Draft.finish

end BlendWeights

namespace Settings

def toJson (s : Settings) : Value :=
  .object
    [
      ("blend", s.weights.toJson),
      ("round_to", .ofOption (fun places => .integer places.toNat) s.roundTo),
      ("plausible_ranges", s.ranges.toJson PlausibleRange.toJson)
    ]

/-- The members of settings that have been read. -/
structure Draft where
  weights : Option BlendWeights := none
  roundTo : Option (Option UInt32) := none
  ranges : Option (FieldMap PlausibleRange) := none

namespace Draft

def names : List String :=
  ["blend", "round_to", "plausible_ranges"]

def member (draft : Draft) (key : String) (d : Document) : Except Fault Draft := do
  if key = "blend" then return { draft with weights := ← once draft.weights BlendWeights.ofJson d }
  else if key = "round_to" then
    return { draft with roundTo := ← once draft.roundTo (asNullable asUInt32) d }
  else if key = "plausible_ranges" then
    return { draft with ranges := ← once draft.ranges (FieldMap.ofJson PlausibleRange.ofJson) d }
  else do
    d.skip
    return draft

def finish (draft : Draft) : Settings :=
  let default : Settings := {}
  {
    weights := draft.weights.getD default.weights,
    roundTo := draft.roundTo.getD default.roundTo,
    ranges := draft.ranges.getD default.ranges
  }

end Draft

def ofJson (d : Document) : Except Fault Settings :=
  (asRecord Draft.names Draft.member {} d).map Draft.finish

/-- Why settings were not loaded. -/
inductive LoadError where
  | json (fault : Fault)
  | invalid (e : SettingsError)
deriving DecidableEq

/-- The settings that a text holds, if they are accepted. -/
def load (text : String) : Except LoadError Settings :=
  match Json.readText ofJson text with
  | .error fault => .error (.json fault)
  | .ok s =>
      match s.check with
      | .error e => .error (.invalid e)
      | .ok () => .ok s

end Settings

end MeasureSheet
