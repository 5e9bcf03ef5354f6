import MeasureSheet.Record

/-! Blending of predictions with values that rules gave. -/

namespace MeasureSheet

/-- The shares of a prediction and of a rule in a blended value. -/
structure BlendWeights where
  model : Float := 0.8
  rule : Float := 0.2
deriving DecidableEq

/-- Weights that are no shares of a whole. -/
structure InvalidWeights where
  weights : BlendWeights
deriving DecidableEq

def InvalidWeights.message (e : InvalidWeights) : String :=
  let model := Decimal.text e.weights.model
  let rule := Decimal.text e.weights.rule
  s!"Blend weights must be finite, non-negative and sum to 1 (model {model}, rule {rule})"

namespace BlendWeights

instance : BEq BlendWeights := ⟨fun a b => a.model == b.model && a.rule == b.rule⟩

/-- How far the sum of two weights may be from one. -/
def tolerance : Float :=
  1e-9

/-- Two finite weights, neither negative, that add up to one. -/
def isValid (w : BlendWeights) : Bool :=
  w.model.isFinite && w.rule.isFinite && 0.0 ≤ w.model && 0.0 ≤ w.rule
    && ((w.model + w.rule) - 1.0).abs ≤ tolerance

def check (w : BlendWeights) : Except InvalidWeights Unit :=
  if w.isValid then .ok () else .error { weights := w }

/-- The weights in which rules have what the prediction leaves. -/
def ofModel (model : Float) : Except InvalidWeights BlendWeights :=
  let w : BlendWeights := { model, rule := 1.0 - model }
  if w.isValid then .ok w else .error { weights := w }

/-- The weighted sum of a prediction and a rule's value, or the prediction when there is no other.
-/
def blend (w : BlendWeights) (predicted : Float) : Option Float → Float
  | some estimate => w.model * predicted + w.rule * estimate
  | none => predicted

end BlendWeights

namespace Record

/-- What a prediction makes of a field: a rule's value is blended with it, and an unknown field
takes it. Other fields keep what they have, and predictions that are not finite do not count.
-/
def predicted? (r : Record) (w : BlendWeights) (f : Field) (predicted : Float)
    : Option Measurement :=
  if !predicted.isFinite then none
  else
    match r.measurement? f with
    | none => some { value := predicted, provenance := .predicted }
    | some { value, provenance := .rule id } =>
        some { value := w.blend predicted (some value), provenance := .blended id }
    | some _ => none

/-- The record with predictions merged in, each weighed against the record as it was. -/
def blend (r : Record) (w : BlendWeights) (predictions : List (Field × Float)) : Record :=
  predictions.foldl (fun merged p =>
    match r.predicted? w p.1 p.2 with
    | some e => merged.store p.1 e
    | none => merged) r

end Record

end MeasureSheet
