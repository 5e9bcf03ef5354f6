import MeasureSheet.Format.Rules
import MeasureSheet.RuleTable

/-! The JSON form of rule tables. A table that is loaded has to pass the acceptance check. -/

namespace MeasureSheet

open Json (Document Fault Value)
open Json.Document (asList asRecord asString once required)

namespace RuleTable

def toJson (t : RuleTable) : Value :=
  .object
    [
      ("order", .array (t.order.map Field.toJson)),
      ("rules", t.book.toJson),
      ("descriptions", t.descriptions.toJson .string)
    ]

/-- The members of a table that have been read. -/
structure Draft where
  order : Option (List Field) := none
  book : Option RuleBook := none
  descriptions : Option (FieldMap String) := none

namespace Draft

def names : List String :=
  ["order", "rules", "descriptions"]

def member (level : Nat) (draft : Draft) (key : String) (d : Document) : Except Fault Draft := do
  if key = "order" then return { draft with order := ← once draft.order (asList Field.ofJson) d }
  else if key = "rules" then
    return { draft with book := ← once draft.book (RuleBook.ofJson level) d }
  else if key = "descriptions" then
    return { draft with descriptions := ← once draft.descriptions (FieldMap.ofJson asString) d }
  else do
    d.skip
    return draft

/-- The descriptions may be left out. -/
def finish (draft : Draft) : Except Fault RuleTable := do
  return {
    order := ← required draft.order,
    book := ← required draft.book,
    descriptions := draft.descriptions.getD ∅
  }

end Draft

/-- A table as it is written, whether or not its parts fit each other. -/
def ofJson (d : Document) : Except Fault RuleTable := do
  let draft ← asRecord Draft.names (Draft.member 1) {} d
  draft.finish

/-- Why a table was not loaded. -/
inductive LoadError where
  | json (fault : Fault)
  | inconsistent (cause : Inconsistency)
deriving DecidableEq

/-- The table as a text. -/
def save (t : RuleTable) : String :=
  t.toJson.pretty

/-- The table that a text holds, if it is accepted. -/
def load (text : String) : Except LoadError RuleTable :=
  match Json.readText ofJson text with
  | .error fault => .error (.json fault)
  | .ok t =>
      match t.check with
      | .error cause => .error (.inconsistent cause)
      | .ok () => .ok t

end RuleTable

end MeasureSheet
