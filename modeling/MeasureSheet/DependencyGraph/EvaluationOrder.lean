import MeasureSheet.DependencyGraph

/-! Evaluation orders: every field after the fields that it is derived from. A field is placed once
all its parents are, and of the fields that are ready together the first in lexical order goes
first.
-/

namespace MeasureSheet

/-- The fields that could not be put into an order. -/
structure OrderingFailure where
  unordered : List Field
deriving DecidableEq

def OrderingFailure.message (e : OrderingFailure) : String :=
  s!"Cycle detected: {e.unordered.length} field(s) could not be ordered"

namespace DependencyGraph

/-- How far the ordering of a graph has come. -/
structure Progress where
  /-- For each field the number of its parents that are not placed yet. -/
  waiting : FieldMap Nat
  /-- The fields that wait for nothing and are not placed yet, in lexical order. -/
  ready : List Field
  /-- The fields that are placed, in their order. -/
  placed : List Field

/-- Nothing is placed, and the fields without parents are ready. -/
def Progress.start (g : DependencyGraph) : Progress where
  waiting := {
    entries := g.fields.map fun f => (f, (g.parents f).length)
    ascending := List.pairwise_map.2 (Field.pairwise_ascending _)
  }
  ready := g.fields.filter fun f => (g.parents f).isEmpty
  placed := []

/-- Places a field, which leaves `ready` as the fields that are ready besides those it frees. -/
def Progress.place (g : DependencyGraph) (p : Progress) (f : Field) (ready : List Field)
    : Progress :=
  let children := g.children f
  let waiting := p.waiting.map fun child n => if child ∈ children then n - 1 else n
  let freed := children.filter fun child => waiting.find? child = some 0
  {
    waiting,
    ready := freed.foldl (fun ready child => Field.insertAscending child ready) ready,
    placed := p.placed ++ [f]
  }

/-- Places ready fields, at most as many as the first argument says. -/
def Progress.run (g : DependencyGraph) : Nat → Progress → Progress
  | 0, p => p
  | steps + 1, p =>
      match p.ready with
      | [] => p
      | f :: ready => run g steps (p.place g f ready)

/-- The state in which no field is ready any more. -/
def ordering (g : DependencyGraph) : Progress :=
  (Progress.start g).run g g.fields.length

/-- The order of all fields, or those of them that wait for a field forever. -/
def evaluationOrder (g : DependencyGraph) : Except OrderingFailure (List Field) :=
  let final := g.ordering
  if final.placed.length = g.fields.length then .ok final.placed
  else
    .error { unordered := g.fields.filter fun f => (final.waiting.find? f).any fun n => 0 < n }

end DependencyGraph

end MeasureSheet
