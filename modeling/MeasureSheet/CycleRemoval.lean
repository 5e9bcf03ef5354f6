import MeasureSheet.DependencyGraph.Cycle

/-! Breaking dependency cycles. As long as the graph of a rule book has a cycle, one of the rules
that make up the cycle found first is given up. Which one is left to a policy; the number of rules
given up is not the least possible.
-/

namespace MeasureSheet

-- -----------------------------------------------------------------------------------------------
-- Candidates

/-- The first rule of each number. -/
def distinctById (rules : List Rule) : List Rule :=
  rules.foldl (fun found r => if found.any (·.id = r.id) then found else found ++ [r]) []

/-- The rules that a cycle is made of: those that derive a target on it from the field before. -/
def RuleBook.rulesAlong (book : RuleBook) (cycle : List Dependency) : List Rule :=
  distinctById <| cycle.flatMap fun d => (book.rulesFor d.target).filter fun r => r.dependsOn d.base

-- -----------------------------------------------------------------------------------------------
-- Policies

/-- Names the rule to give up among candidates, or none of them. A policy may take into account the
candidates that it was shown before.
-/
abbrev RemovalPolicy := (earlier : List (List Rule)) → (candidates : List Rule) → Option RuleId

/-- Whether a rule is given up rather than another: by its priority, then as the later row. -/
def Rule.yieldsTo (r s : Rule) : Bool :=
  r.priority < s.priority || r.priority = s.priority && s.id.number < r.id.number

/-- The rule of lowest priority, and of those the one of the latest row. -/
def lowestRule? : List Rule → Option Rule
  | [] => none
  | r :: rs => some (rs.foldl (fun lowest s => if s.yieldsTo lowest then s else lowest) r)

/-- Gives up the candidate of lowest priority. -/
def RemovalPolicy.lowestPriority : RemovalPolicy :=
  fun _ candidates => (lowestRule? candidates).map (·.id)

-- -----------------------------------------------------------------------------------------------
-- Untangling

/-- A cycle and the rules that it is made of. -/
structure Dilemma where
  cycle : List Dependency
  candidates : List Rule

/-- The fields of the cycle. -/
def Dilemma.fields (d : Dilemma) : List Field :=
  d.cycle.map (·.target)

/-- A cycle that was broken, and the rule that was given up for it. -/
structure Removal where
  dilemma : Dilemma
  rule : Rule

/-- A cycle for which the policy named none of the candidates. -/
structure UnresolvableCycle where
  fields : List Field
deriving DecidableEq

def UnresolvableCycle.message (e : UnresolvableCycle) : String :=
  let fields := ", ".intercalate (e.fields.map fun f => "FieldName(\"" ++ f.text ++ "\")")
  s!"Cycle through [{fields}] could not be resolved: no removable rule found"

/-- What breaking the cycles of a rule book led to. -/
structure Untangling where
  /-- The cycles that were broken, in order. -/
  removals : List Removal
  /-- The cycle that was not broken, if the policy left one. -/
  dilemma : Option Dilemma
  /-- The rules that are left. -/
  book : RuleBook
  /-- The graph that was searched last. -/
  graph : DependencyGraph

namespace Untangling

/-- The rules that were given up, in order. -/
def removed (r : Untangling) : List Rule :=
  r.removals.map (·.rule)

/-- The candidates that the policy was shown, in order. -/
def consultations (r : Untangling) : List (List Rule) :=
  r.removals.map (·.dilemma.candidates) ++ r.dilemma.toList.map (·.candidates)

/-- The rules that are left when no cycle is. -/
def outcome (r : Untangling) : Except UnresolvableCycle RuleBook :=
  match r.dilemma with
  | none => .ok r.book
  | some d => .error { fields := d.fields }

end Untangling

/-- The candidate that the policy names and the book without it. -/
def RuleBook.giveUp? (book : RuleBook) (candidates : List Rule) (answer : Option RuleId)
    : Option (Rule × RuleBook) :=
  match answer with
  | some id => if candidates.any (·.id = id) then book.remove? id else none
  | none => none

/-- Breaks cycles of a graph of the book until none is left, or until the policy names no candidate.
The graph is drawn anew whenever a rule was given up. The first argument bounds the number of rules
given up.
-/
def RuleBook.breakCycles (choose : RemovalPolicy)
    : Nat → (earlier : List (List Rule)) → DependencyGraph → RuleBook → Untangling
  | bound, earlier, graph, book =>
      match graph.findCycle with
      | none => { removals := [], dilemma := none, book, graph }
      | some cycle =>
          let dilemma := { cycle, candidates := book.rulesAlong cycle }
          match bound, book.giveUp? dilemma.candidates (choose earlier dilemma.candidates) with
          | bound + 1, some (rule, rest) =>
              let later :=
                rest.breakCycles choose bound (earlier ++ [dilemma.candidates]) rest.graph
              { later with removals := { dilemma, rule } :: later.removals }
          | _, _ => { removals := [], dilemma := some dilemma, book, graph }

/-- Breaks every cycle of a rule book, giving up as many rules as it takes. -/
def RuleBook.untangle (book : RuleBook) (choose : RemovalPolicy) : Untangling :=
  book.breakCycles choose book.ruleCount [] book.graph

end MeasureSheet
