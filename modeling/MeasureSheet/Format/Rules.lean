import MeasureSheet.Json.Decoding
import MeasureSheet.Json.Value
import MeasureSheet.RuleBook

/-! The JSON form of rules, rows and rule books. -/

namespace MeasureSheet

open Json (Document Fault Value)
open Json.Document (Contents asFloat asInt32 asList asMembers asNullable asRecord asString asTagged
  asUInt32 asWord once required)

-- -----------------------------------------------------------------------------------------------
-- Names and numbers

namespace Field

def toJson (f : Field) : Value :=
  .string f.text

/-- Any text names a field. -/
def ofJson (d : Document) : Except Fault Field :=
  (asString d).map Field.named

end Field

namespace FieldMap

variable {α : Type}

def toJson (value : α → Value) (m : FieldMap α) : Value :=
  .object (m.entries.map fun p => (p.1.text, value p.2))

/-- Of two members for one field the later counts. -/
def ofJson (read : Document → Except Fault α) (d : Document) : Except Fault (FieldMap α) :=
  (asMembers read d).map fun pairs => FieldMap.ofList (pairs.map fun p => (Field.named p.1, p.2))

end FieldMap

namespace RuleId

def toJson (id : RuleId) : Value :=
  .integer id.number.toNat

def ofJson (d : Document) : Except Fault RuleId :=
  (asUInt32 d).map RuleId.mk

end RuleId

-- -----------------------------------------------------------------------------------------------
-- Operators

namespace Operator

def name : Operator → String
  | add => "add"
  | subtract => "subtract"
  | multiply => "multiply"
  | divide => "divide"

def ofName? (name : String) : Option Operator :=
  if name = "add" then some add
  else if name = "subtract" then some subtract
  else if name = "multiply" then some multiply
  else if name = "divide" then some divide
  else none

def toJson (op : Operator) : Value :=
  .string op.name

/-- An operator on its own: its name, or an object in which its name stands beside null. -/
def ofJson : Document → Except Fault Operator
  | .string token => asWord ofName? (.string token)
  | .object ((key, value) :: rest) ending => do
      let op ← asWord ofName? (.string key)
      match value with
      | .null =>
          if rest.isEmpty then do
            Json.passUnless ending
            return op
          else .error .malformed
      | d => .error d.mismatch
  | .object [] (some fault) => .error fault
  | .broken fault => .error fault
  | _ => .error .malformed

/-- An operator inside a relation: beside its name, null and an empty object say the same. -/
def ofJsonInside : Document → Except Fault Operator
  | .string token => asWord ofName? (.string token)
  | .object [(key, .null)] _ => asWord ofName? (.string key)
  | .object [(key, .object [] _)] _ => asWord ofName? (.string key)
  | _ => .error .mismatch

end Operator

-- -----------------------------------------------------------------------------------------------
-- Relations

/-- The kinds of relations. -/
inductive RelationKind where
  | proportion
  | ratio
  | offset
  | combine
deriving DecidableEq

def RelationKind.ofName? (name : String) : Option RelationKind :=
  if name = "proportion" then some proportion
  else if name = "ratio" then some ratio
  else if name = "offset" then some offset
  else if name = "combine" then some combine
  else none

namespace Relation

def toJson (r : Relation) : Value :=
  .object <| ("kind", .string r.kind) ::
    match r with
    | proportion base multiplier => [("base", base.toJson), ("multiplier", .float multiplier)]
    | ratio base multiplier => [("base", base.toJson), ("multiplier", .float multiplier)]
    | offset base shift => [("base", base.toJson), ("offset", .float shift)]
    | combine lhs op rhs => [("lhs", lhs.toJson), ("op", op.toJson), ("rhs", rhs.toJson)]

/-- A relation with one base and one number. -/
def ofBaseAndNumber (make : Field → Float → Relation) (number : String) (contents : Contents)
    : Except Fault Relation := do
  match ← contents.select ["base", number] with
  | [base, value] => return make (← Field.ofJson base) (← asFloat value)
  | _ => .error .mismatch

def ofContents (contents : Contents) : RelationKind → Except Fault Relation
  | .proportion => ofBaseAndNumber proportion "multiplier" contents
  | .ratio => ofBaseAndNumber ratio "multiplier" contents
  | .offset => ofBaseAndNumber offset "offset" contents
  | .combine => do
      match ← contents.select ["lhs", "op", "rhs"] with
      | [lhs, op, rhs] =>
          return combine (← Field.ofJson lhs) (← Operator.ofJsonInside op) (← Field.ofJson rhs)
      | _ => .error .mismatch

/-- A relation inside as many arrays and objects as `level` says. -/
def ofJson (level : Nat) (d : Document) : Except Fault Relation := do
  let (kind, contents) ← asTagged "kind" RelationKind.ofName? level d
  ofContents contents kind

end Relation

-- -----------------------------------------------------------------------------------------------
-- Rules

namespace Rule

def toJson (r : Rule) : Value :=
  .object
    [
      ("id", r.id.toJson),
      ("target", r.target.toJson),
      ("relation", r.relation.toJson),
      ("priority", .integer r.priority.toInt),
      ("tolerance", .float r.tolerance),
      ("notes", .string r.notes)
    ]

/-- The members of a rule that have been read. -/
structure Draft where
  id : Option RuleId := none
  target : Option Field := none
  relation : Option Relation := none
  priority : Option Int32 := none
  tolerance : Option Float := none
  notes : Option String := none

namespace Draft

def names : List String :=
  ["id", "target", "relation", "priority", "tolerance", "notes"]

def member (level : Nat) (draft : Draft) (key : String) (d : Document) : Except Fault Draft := do
  if key = "id" then return { draft with id := ← once draft.id RuleId.ofJson d }
  else if key = "target" then return { draft with target := ← once draft.target Field.ofJson d }
  else if key = "relation" then
    return { draft with relation := ← once draft.relation (Relation.ofJson level) d }
  else if key = "priority" then return { draft with priority := ← once draft.priority asInt32 d }
  else if key = "tolerance" then return { draft with tolerance := ← once draft.tolerance asFloat d }
  else if key = "notes" then return { draft with notes := ← once draft.notes asString d }
  else do
    d.skip
    return draft

/-- Tolerance and notes may be left out. -/
def finish (draft : Draft) : Except Fault Rule := do
  return {
    id := ← required draft.id,
    target := ← required draft.target,
    relation := ← required draft.relation,
    priority := ← required draft.priority,
    tolerance := draft.tolerance.getD 0.0,
    notes := draft.notes.getD ""
  }

end Draft

/-- A rule inside as many arrays and objects as `level` says. -/
def ofJson (level : Nat) (d : Document) : Except Fault Rule := do
  let draft ← asRecord Draft.names (Draft.member (level + 1)) {} d
  draft.finish

end Rule

namespace RuleBook

def toJson (book : RuleBook) : Value :=
  book.filed.toJson fun rules => .array (rules.map Rule.toJson)

/-- A rule book inside as many arrays and objects as `level` says. -/
def ofJson (level : Nat) (d : Document) : Except Fault RuleBook :=
  (FieldMap.ofJson (asList (Rule.ofJson (level + 2))) d).map RuleBook.mk

end RuleBook

-- -----------------------------------------------------------------------------------------------
-- Rows

namespace Row

def toJson (r : Row) : Value :=
  .object
    [
      ("formula", .string r.formula),
      ("priority", .integer r.priority.toInt),
      ("tolerance", .ofOption .float r.tolerance),
      ("notes", .ofOption .string r.notes)
    ]

/-- The members of a row that have been read. -/
structure Draft where
  formula : Option String := none
  priority : Option Int32 := none
  tolerance : Option (Option Float) := none
  notes : Option (Option String) := none

namespace Draft

def names : List String :=
  ["formula", "priority", "tolerance", "notes"]

def member (draft : Draft) (key : String) (d : Document) : Except Fault Draft := do
  if key = "formula" then return { draft with formula := ← once draft.formula asString d }
  else if key = "priority" then return { draft with priority := ← once draft.priority asInt32 d }
  else if key = "tolerance" then
    return { draft with tolerance := ← once draft.tolerance (asNullable asFloat) d }
  else if key = "notes" then
    return { draft with notes := ← once draft.notes (asNullable asString) d }
  else do
    d.skip
    return draft

/-- All but the formula may be left out. -/
def finish (draft : Draft) : Except Fault Row := do
  return {
    formula := ← required draft.formula,
    priority := draft.priority.getD 0,
    tolerance := draft.tolerance.getD none,
    notes := draft.notes.getD none
  }

end Draft

def ofJson (d : Document) : Except Fault Row := do
  let draft ← asRecord Draft.names Draft.member {} d
  draft.finish

end Row

end MeasureSheet
