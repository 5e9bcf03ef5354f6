import MeasureSheet.Record
import MeasureSheet.RuleTable

/-! Derivations: how a field of a record got its value, as a tree from the field down to values that
no rule gave. A field that comes up again stands for its first occurrence, in the order in which the
tree is read from the top.
-/

namespace MeasureSheet

/-- What stands behind the value of a field. -/
inductive Source where
  | unknown
  | supplied
  | predicted
  | rule (blended : Bool) (rule : Rule)
  /-- A rule that the table does not have. -/
  | missingRule (blended : Bool) (id : RuleId)
deriving DecidableEq

/-- A node of a tree. -/
inductive Derivation where
  | field (field : Field) (source : Source) (bases : List Derivation)
  /-- A field that first occurs at a level further up in the text. -/
  | again (level : Nat)

/-- The fields from which the value of a field follows. -/
def Source.bases : Source → List Field
  | rule _ r => r.inputs
  | _ => []

/-- The rule with a number, or that it is missing. -/
def RuleTable.ruleSource (t : RuleTable) (blended : Bool) (id : RuleId) : Source :=
  match t.findRule? id with
  | some r => .rule blended r
  | none => .missingRule blended id

/-- What stands behind the value of a field. -/
def RuleTable.source (t : RuleTable) (r : Record) (f : Field) : Source :=
  match r.measurement? f with
  | none => .unknown
  | some { provenance := .supplied, .. } => .supplied
  | some { provenance := .predicted, .. } => .predicted
  | some { provenance := .rule id, .. } => t.ruleSource false id
  | some { provenance := .blended id, .. } => t.ruleSource true id

namespace Derivation

/-- Maps a list from left to right while a state passes through. -/
def mapThrough {α β σ : Type} (f : α → σ → β × σ) : List α → σ → List β × σ
  | [], state => ([], state)
  | a :: rest, state =>
      let (b, state) := f a state
      let (bs, state) := mapThrough f rest state
      (b :: bs, state)

/-- The tree of a field at a level, where `seen` holds the levels at which fields occurred first.
The depth bounds the tree; only fields of the record are taken apart, none of them twice, so the
size of the record is enough.
-/
def build (t : RuleTable) (r : Record) (depth level : Nat) (f : Field) (seen : FieldMap Nat)
    : Derivation × FieldMap Nat :=
  match seen.find? f with
  | some first => (.again first, seen)
  | none =>
      let source := t.source r f
      let (bases, seen) :=
        match depth with
        | 0 => ([], seen.insert f level)
        | depth + 1 => mapThrough (build t r depth (level + 1)) source.bases (seen.insert f level)
      (.field f source bases, seen)

/-- The tree of a field of a record. -/
def ofField (t : RuleTable) (r : Record) (f : Field) : Derivation :=
  (build t r r.size 1 f ∅).1

-- -----------------------------------------------------------------------------------------------
-- Text

/-- A field's value in brackets. -/
def valueText (r : Record) (f : Field) : String :=
  match r.value? f with
  | some value => " [" ++ Decimal.fixed 3 value ++ "]"
  | none => " [?]"

def blendMark (blended : Bool) : String :=
  if blended then " [BLENDED]" else ""

/-- What stands behind a field, as the end of its line. -/
def sourceText (r : Record) : Source → String
  | .unknown => " -> Unknown"
  | .supplied => " -> Supplied"
  | .predicted => " -> Predicted"
  | .rule blended rule =>
      let relation := rule.relation.write fun f => f.text ++ valueText r f
      blendMark blended ++ s!" = {relation} (rule {rule.id.text})"
  | .missingRule blended id => blendMark blended ++ s!" -> Rule {id.text} (not in table)"

mutual

/-- The lines of a tree at a level. The first of them begins with `lead`, and those of its bases
with `stem`.
-/
def lines (r : Record) (level : Nat) (lead stem : String) : Derivation → List String
  | .again first => [lead ++ s!"-> (Ref to L{first})"]
  | .field f source bases =>
      (lead ++ s!"[L{level}] {f.text}" ++ valueText r f ++ sourceText r source)
        :: baseLines r (level + 1) stem bases

/-- The lines of bases, each of which hangs on a branch. -/
def baseLines (r : Record) (level : Nat) (stem : String) : List Derivation → List String
  | [] => []
  | base :: rest =>
      if rest.isEmpty then lines r level (stem ++ "`--") (stem ++ "   ") base
      else
        lines r level (stem ++ "|--") (stem ++ "|  ") base ++ baseLines r level stem rest

end

def headline (f : Field) : List String :=
  [s!"DERIVATION TRACE for field '{f.text}':", String.ofList (List.replicate 50 '-')]

/-- The derivation of a field as a text, each line of it ended. -/
def trace (t : RuleTable) (r : Record) (f : Field) : String :=
  String.join ((headline f ++ lines r 1 "" "" (ofField t r f)).map (· ++ "\n"))

end Derivation

end MeasureSheet
