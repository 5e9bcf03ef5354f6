import MeasureSheet.DependencyGraph

/-! Cycles: a depth-first search through the fields of a graph, in lexical order at every turn,
which ends at the first field that leads back to one on the way to it.
-/

namespace MeasureSheet.DependencyGraph

/-- The fields of a way, newest first, from an entry to the newest, in the order of the way. -/
def loopFrom (entry : Field) (way : List Field) : List Field :=
  entry :: (way.takeWhile (· ≠ entry)).reverse

/-- The dependencies along a list of fields and back to its first. -/
def closeLoop : List Field → List Dependency
  | [] => []
  | entry :: rest =>
      List.zipWith (fun base target => { base, target }) (entry :: rest) (rest ++ [entry])

/-- Searches the fields that can be reached from `f` and are not finished yet. The way to `f` is
given newest first; the search ends with the fields of a cycle as its error, or else with all
finished fields. The first argument bounds the length of ways.
-/
def search (g : DependencyGraph)
    : Nat → (way finished : List Field) → Field → Except (List Field) (List Field)
  | 0, _, finished, _ => .ok finished
  | depth + 1, way, finished, f => do
      let finished ← (g.children f).foldlM (fun finished child =>
        if child ∈ finished then .ok finished
        else if child ∈ f :: way then .error (loopFrom child (f :: way))
        else search g depth (f :: way) finished child) finished
      return f :: finished

/-- Searches from every field that no earlier search has finished. -/
def searchAll (g : DependencyGraph) : Except (List Field) (List Field) :=
  let fields := g.fields
  fields.foldlM (fun finished root =>
    if root ∈ finished then .ok finished else g.search fields.length [] finished root) []

/-- The first cycle that the search meets. -/
def findCycle (g : DependencyGraph) : Option (List Dependency) :=
  match g.searchAll with
  | .ok _ => none
  | .error fields => some (closeLoop fields)

end MeasureSheet.DependencyGraph
