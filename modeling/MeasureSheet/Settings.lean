import MeasureSheet.Blending

/-! Settings of an estimate: blend weights, rounding, and the ranges in which measurements are
plausible.
-/

namespace MeasureSheet

/-- Bounds of a plausible measurement, which belong to the range. -/
structure PlausibleRange where
  min : Float
  max : Float
deriving DecidableEq, BEq

namespace PlausibleRange

def contains (range : PlausibleRange) (x : Float) : Bool :=
  range.min ≤ x && x ≤ range.max

/-- Both bounds are finite, and they are in order. -/
def isValid (range : PlausibleRange) : Bool :=
  range.min.isFinite && range.max.isFinite && !(range.max < range.min)

end PlausibleRange

/-- The ranges that hold when no others are set. -/
def defaultRanges : FieldMap PlausibleRange :=
  FieldMap.ofList
    [
      (.named "height_cm", { min := 100.0, max := 250.0 }),
      (.named "waist_cm", { min := 50.0, max := 200.0 }),
      (.named "hip_cm", { min := 70.0, max := 250.0 })
    ]

structure Settings where
  weights : BlendWeights := {}
  /-- The decimal places to which derived values are rounded, if they are. -/
  roundTo : Option UInt32 := some 1
  ranges : FieldMap PlausibleRange := defaultRanges
deriving DecidableEq

/-- What is wrong with settings. -/
inductive SettingsError where
  | invalidWeights (e : InvalidWeights)
  | invalidRange (field : Field)
deriving DecidableEq

def SettingsError.message : SettingsError → String
  | invalidWeights e => e.message
  | invalidRange field => s!"Plausible range for '{field.text}' is empty or not finite"

namespace Settings

instance : BEq Settings :=
  ⟨fun s t => s.weights == t.weights && s.roundTo == t.roundTo && s.ranges == t.ranges⟩

/-- Looks at the weights first, then at the ranges in lexical order of their fields. -/
def check (s : Settings) : Except SettingsError Unit :=
  match s.weights.check with
  | .error e => .error (.invalidWeights e)
  | .ok () =>
      match s.ranges.entries.find? fun p => !p.2.isValid with
      | some p => .error (.invalidRange p.1)
      | none => .ok ()

def range? (s : Settings) (f : Field) : Option PlausibleRange :=
  s.ranges.find? f

end Settings

-- -----------------------------------------------------------------------------------------------
-- Findings

/-- A value outside its plausible range. -/
structure Finding where
  field : Field
  value : Float
  range : PlausibleRange
deriving DecidableEq

def Finding.message (f : Finding) : String :=
  let value := Decimal.fixed 1 f.value
  let min := Decimal.text f.range.min
  let max := Decimal.text f.range.max
  s!"Out of range: '{f.field.text}' is {value}, expected between {min} and {max}"

/-- A value against the range of its field. -/
def Settings.finding? (s : Settings) (field : Field) (value : Float) : Option Finding :=
  match s.range? field with
  | some range => if range.contains value then none else some { field, value, range }
  | none => none

/-- The values of a record outside their ranges, in lexical order of fields. -/
def Settings.findings (s : Settings) (r : Record) : List Finding :=
  r.entries.entries.filterMap fun p => s.finding? p.1 p.2.value

end MeasureSheet
