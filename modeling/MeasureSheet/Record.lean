import MeasureSheet.Rule

/-! Records: the known measurements of one person, each with where it came from. Values that were
supplied are never replaced.
-/

namespace MeasureSheet

/-- Where a value came from. -/
inductive Provenance where
  | supplied
  | rule (id : RuleId)
  | predicted
  /-- A prediction weighed against the value that a rule gave. -/
  | blended (id : RuleId)
deriving DecidableEq

def Provenance.text : Provenance → String
  | supplied => "supplied"
  | rule id => "rule" ++ id.text
  | predicted => "predicted"
  | blended id => "blended" ++ id.text

structure Measurement where
  value : Float
  provenance : Provenance
deriving DecidableEq, BEq

/-- The known fields with their values. -/
structure Record where
  entries : FieldMap Measurement
deriving DecidableEq, BEq

namespace Record

instance : EmptyCollection Record := ⟨{ entries := ∅ }⟩

instance : Inhabited Record := ⟨∅⟩

def measurement? (r : Record) (f : Field) : Option Measurement :=
  r.entries.find? f

def value? (r : Record) (f : Field) : Option Float :=
  (r.measurement? f).map (·.value)

def isKnown (r : Record) (f : Field) : Bool :=
  r.entries.contains f

def isSupplied (r : Record) (f : Field) : Bool :=
  (r.measurement? f).any fun e => e.provenance = .supplied

def size (r : Record) : Nat :=
  r.entries.size

def isEmpty (r : Record) : Bool :=
  r.entries.isEmpty

/-- The known values by field. -/
def values (r : Record) : FieldMap Float :=
  r.entries.map fun _ e => e.value

/-- Whether a field takes a new value: it was not supplied. -/
def accepts (r : Record) (f : Field) : Bool :=
  !r.isSupplied f

/-- Enters a value, unless the field was supplied. -/
def store (r : Record) (f : Field) (e : Measurement) : Record :=
  if r.accepts f then { entries := r.entries.insert f e } else r

/-- The record of supplied values; missing, infinite and NaN values are unknown. -/
def ofKnown (known : List (String × Option Float)) : Record :=
  known.foldl (fun r p =>
    match p.2.bind finite? with
    | some value => r.store (.named p.1) { value, provenance := .supplied }
    | none => r) ∅

/-- The power of ten by which values are scaled for their decimal places, of which fifteen count. -/
def scale (places : Nat) : Float :=
  Float.ofNat (Nat.pow 10 (min places 15))

/-- A value rounded to decimal places. -/
def roundValue (places : Nat) (x : Float) : Float :=
  Decimal.roundFloat (x * scale places) / scale places

/-- The record with every value rounded that was not supplied. -/
def rounded (r : Record) (places : Nat) : Record where
  entries := r.entries.map fun _ e =>
    if e.provenance = .supplied then e else { e with value := roundValue places e.value }

end Record

end MeasureSheet
