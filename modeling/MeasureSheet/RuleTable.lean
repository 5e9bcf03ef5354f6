import MeasureSheet.DependencyGraph.EvaluationOrder

/-! Rule tables: rules with the order in which their targets are evaluated, and the check that the
two fit each other.
-/

namespace MeasureSheet

structure RuleTable where
  /-- The targets in evaluation order. -/
  order : List Field
  book : RuleBook
  /-- Remarks on fields, which play no part in evaluation. -/
  descriptions : FieldMap String
deriving DecidableEq, BEq

namespace RuleTable

instance : EmptyCollection RuleTable := ⟨{ order := [], book := ∅, descriptions := ∅ }⟩

instance : Inhabited RuleTable := ⟨∅⟩

/-- The table of a rule book: candidates sorted by priority, and of an order of all fields the part
that has rules.
-/
def ofBook (book : RuleBook) (fieldOrder : List Field) (descriptions : FieldMap String)
    : RuleTable where
  order := fieldOrder.filter book.hasTarget
  book := book.sorted
  descriptions

/-- The rules of a target in the order in which they are tried. -/
def candidates (t : RuleTable) (target : Field) : List Rule :=
  t.book.rulesFor target

def findRule? (t : RuleTable) (id : RuleId) : Option Rule :=
  t.book.find? id

def targetCount (t : RuleTable) : Nat :=
  t.order.length

def ruleCount (t : RuleTable) : Nat :=
  t.book.ruleCount

def isEmpty (t : RuleTable) : Bool :=
  t.order.isEmpty

def graph (t : RuleTable) : DependencyGraph :=
  t.book.graph

-- -----------------------------------------------------------------------------------------------
-- The acceptance check

/-- What is wrong with a table. -/
inductive Inconsistency where
  | repeated (field : Field)
  | unordered (target : Field)
  | unsorted (target : Field)
  | misfiled (id : RuleId) (target : Field)
  | baseAfterTarget (target base : Field)
  | withoutRules (field : Field)
deriving DecidableEq

def Inconsistency.reason : Inconsistency → String
  | repeated field => s!"'{field.text}' appears more than once in the order"
  | unordered target => s!"target '{target.text}' is missing from the order"
  | unsorted target => s!"rules for '{target.text}' are not sorted by priority"
  | misfiled id target => s!"rule {id.text} is filed under '{target.text}'"
  | baseAfterTarget target base =>
      s!"'{target.text}' is evaluated before its base '{base.text}'"
  | withoutRules field => s!"'{field.text}' is ordered but has no rules"

def Inconsistency.message (i : Inconsistency) : String :=
  s!"Rule table order is inconsistent: {i.reason}"

/-- The first field that stands a second time in a list. -/
def firstRepeated? : (seen : List Field) → List Field → Option Field
  | _, [] => none
  | seen, f :: fs => if f ∈ seen then some f else firstRepeated? (f :: seen) fs

/-- Priorities never go down. -/
def isSorted : List Rule → Bool
  | [] => true
  | r :: rs => rs.head?.all (fun s => r.priority ≤ s.priority) && isSorted rs

/-- What is wrong with a rule of the target that stands at a position of the order. -/
def checkRule (order : List Field) (target : Field) (position : Nat) (r : Rule)
    : Except Inconsistency Unit :=
  if r.target ≠ target then .error (.misfiled r.id target)
  else
    match r.inputs.find? fun base => (order.idxOf? base).any (position ≤ ·) with
    | some base => .error (.baseAfterTarget target base)
    | none => .ok ()

/-- What is wrong with the rules filed under a target. -/
def checkTarget (order : List Field) (target : Field) (rules : List Rule)
    : Except Inconsistency Unit :=
  match order.idxOf? target with
  | none => .error (.unordered target)
  | some position =>
      if isSorted rules then rules.forM (checkRule order target position)
      else .error (.unsorted target)

/-- Accepts a table whose order lists the targets, each once and after the targets among its bases,
and whose rules stand under their own targets in ascending priority. Reports the first fault:
repeated fields first, then the targets in lexical order, then fields without rules.
-/
def check (t : RuleTable) : Except Inconsistency Unit := do
  match firstRepeated? [] t.order with
  | some field => .error (.repeated field)
  | none =>
      t.book.filed.entries.forM fun p => checkTarget t.order p.1 p.2
      match t.order.find? fun f => !t.book.hasTarget f with
      | some field => .error (.withoutRules field)
      | none => .ok ()

end RuleTable

end MeasureSheet
