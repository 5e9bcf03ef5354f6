import MeasureSheet.Relation

/-! Rules: relations that derive a target, with the number of the row that they were authored in,
their priority and their notes.
-/

namespace MeasureSheet

/-- The number of a rule, which is the number of its row. -/
structure RuleId where
  number : UInt32
deriving DecidableEq, Repr

namespace RuleId

/-- Row numbers are counted modulo `2 ^ 32`. -/
def ofRow (row : Nat) : RuleId where
  number := UInt32.ofNat row

def text (id : RuleId) : String :=
  "#" ++ toString id.number.toNat

end RuleId

/-- One authored row of a rule sheet. -/
structure Row where
  formula : String
  priority : Int32 := 0
  tolerance : Option Float := none
  notes : Option String := none
deriving DecidableEq, BEq

/-- A relation that derives a target. Rules of lower priority are tried first, and are the first to
be given up when rules depend on each other in a circle.
-/
structure Rule where
  id : RuleId
  target : Field
  relation : Relation
  priority : Int32
  tolerance : Float := 0.0
  notes : String := ""
deriving DecidableEq, BEq

namespace Rule

def inputs (r : Rule) : List Field :=
  r.relation.inputs

def dependsOn (r : Rule) (f : Field) : Bool :=
  r.relation.dependsOn f

def text (r : Rule) : String :=
  s!"{r.target.text} = {r.relation.text} ({r.relation.kind}, priority {r.priority.toInt})"

end Rule

end MeasureSheet
