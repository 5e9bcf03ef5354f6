import MeasureSheet.Format.Rules
import MeasureSheet.Record

/-! The JSON form of records. -/

namespace MeasureSheet

open Json (Document Fault Value)
open Json.Document (Contents asFloat asRecord asTagged once required)

-- -----------------------------------------------------------------------------------------------
-- Provenances

/-- The kinds of provenances. -/
inductive ProvenanceKind where
  | supplied
  | rule
  | predicted
  | blended
deriving DecidableEq

def ProvenanceKind.ofName? (name : String) : Option ProvenanceKind :=
  if name = "supplied" then some supplied
  else if name = "rule" then some rule
  else if name = "predicted" then some predicted
  else if name = "blended" then some blended
  else none

namespace Provenance

def toJson : Provenance → Value
  | supplied => .object [("source", .string "supplied")]
  | rule id => .object [("source", .string "rule"), ("rule", id.toJson)]
  | predicted => .object [("source", .string "predicted")]
  | blended id => .object [("source", .string "blended"), ("rule", id.toJson)]

/-- A provenance that has nothing beside its tag. -/
def alone (p : Provenance) (contents : Contents) : Except Fault Provenance := do
  let _ ← contents.select []
  return p

/-- A provenance with the number of a rule. -/
def ofRule (make : RuleId → Provenance) (contents : Contents) : Except Fault Provenance := do
  match ← contents.select ["rule"] with
  | [id] => return make (← RuleId.ofJson id)
  | _ => .error .mismatch

def ofContents (contents : Contents) : ProvenanceKind → Except Fault Provenance
  | .supplied => alone supplied contents
  | .rule => ofRule rule contents
  | .predicted => alone predicted contents
  | .blended => ofRule blended contents

/-- A provenance inside as many arrays and objects as `level` says. -/
def ofJson (level : Nat) (d : Document) : Except Fault Provenance := do
  let (kind, contents) ← asTagged "source" ProvenanceKind.ofName? level d
  ofContents contents kind

end Provenance

-- -----------------------------------------------------------------------------------------------
-- Measurements and records

namespace Measurement

def toJson (e : Measurement) : Value :=
  .object [("value", .float e.value), ("provenance", e.provenance.toJson)]

/-- The members of a measurement that have been read. -/
structure Draft where
  value : Option Float := none
  provenance : Option Provenance := none

namespace Draft

def names : List String :=
  ["value", "provenance"]

def member (level : Nat) (draft : Draft) (key : String) (d : Document) : Except Fault Draft := do
  if key = "value" then return { draft with value := ← once draft.value asFloat d }
  else if key = "provenance" then
    return { draft with provenance := ← once draft.provenance (Provenance.ofJson level) d }
  else do
    d.skip
    return draft

def finish (draft : Draft) : Except Fault Measurement := do
  return { value := ← required draft.value, provenance := ← required draft.provenance }

end Draft

/-- A measurement inside as many arrays and objects as `level` says. -/
def ofJson (level : Nat) (d : Document) : Except Fault Measurement := do
  let draft ← asRecord Draft.names (Draft.member (level + 1)) {} d
  draft.finish

end Measurement

namespace Record

def toJson (r : Record) : Value :=
  r.entries.toJson Measurement.toJson

def ofJson (d : Document) : Except Fault Record :=
  (FieldMap.ofJson (Measurement.ofJson 1) d).map Record.mk

end Record

end MeasureSheet
