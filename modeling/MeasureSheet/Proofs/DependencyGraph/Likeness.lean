import MeasureSheet.DependencyGraph.EvaluationOrder
import MeasureSheet.Proofs.DependencyGraph.CycleSearch

/-! Graphs that are alike. What is found in a graph and how its fields are ordered depend on which
dependencies there are, and neither on their order nor on how often each is listed.
-/

namespace MeasureSheet

/-- An ascending list is determined by its members. -/
theorem Field.ascending_congr {fields fields' : List Field} (same : ∀ f, f ∈ fields ↔ f ∈ fields')
    : ascending fields = ascending fields' := by
  have nodup (fields : List Field) : (ascending fields).Nodup :=
    (pairwise_ascending fields).imp Field.ne_of_lt
  have perm : (ascending fields).Perm (ascending fields') := by
    rw [List.perm_ext_iff_of_nodup (nodup fields) (nodup fields')]
    intro f
    rw [mem_ascending, mem_ascending, same]
  exact perm.eq_of_pairwise (fun f f' _ _ below above => absurd above (Field.lt_asymm below))
    (pairwise_ascending fields) (pairwise_ascending fields')

namespace DependencyGraph

/-- Two graphs have the same dependencies, each once or several times and in any order. -/
def Alike (g h : DependencyGraph) : Prop :=
  ∀ d, d ∈ g.dependencies ↔ d ∈ h.dependencies

namespace Alike

variable {g h : DependencyGraph}

theorem fields_eq (alike : g.Alike h) : g.fields = h.fields := by
  apply Field.ascending_congr
  intro f
  simp only [List.mem_flatMap, alike _]

theorem children_eq (alike : g.Alike h) (f : Field) : g.children f = h.children f := by
  apply Field.ascending_congr
  intro child
  simp only [List.mem_map, List.mem_filter, alike _]

theorem parents_eq (alike : g.Alike h) (f : Field) : g.parents f = h.parents f := by
  apply Field.ascending_congr
  intro parent
  simp only [List.mem_map, List.mem_filter, alike _]

-- -----------------------------------------------------------------------------------------------
-- The search for cycles

/-- Searches in graphs that are alike go the same ways, by induction on the depth. -/
theorem search_eq (alike : g.Alike h) (depth : Nat) (way finished : List Field) (f : Field)
    : g.search depth way finished f = h.search depth way finished f := by
  induction depth generalizing way finished f with
  | zero => rfl
  | succ depth ih =>
      have visit : g.visitChild depth (f :: way) = h.visitChild depth (f :: way) := by
        funext before child
        simp only [visitChild, ih]
      rw [search_succ, search_succ, alike.children_eq, visit]

theorem findCycle_eq (alike : g.Alike h) : g.findCycle = h.findCycle := by
  simp only [findCycle, searchAll, alike.fields_eq, alike.search_eq]

-- -----------------------------------------------------------------------------------------------
-- The evaluation order

theorem start_eq (alike : g.Alike h) : Progress.start g = Progress.start h := by
  simp only [Progress.start, alike.fields_eq, alike.parents_eq]

theorem place_eq (alike : g.Alike h) (p : Progress) (f : Field) (ready : List Field)
    : p.place g f ready = p.place h f ready := by
  simp only [Progress.place, alike.children_eq]

/-- Placing goes alike in graphs that are alike, by induction on the steps. -/
theorem run_eq (alike : g.Alike h) (steps : Nat) (p : Progress)
    : p.run g steps = p.run h steps := by
  induction steps generalizing p with
  | zero => rfl
  | succ steps ih =>
      unfold Progress.run
      cases p.ready with
      | nil => rfl
      | cons f ready => simp only [alike.place_eq, ih]

theorem ordering_eq (alike : g.Alike h) : g.ordering = h.ordering := by
  rw [ordering, ordering, alike.start_eq, alike.run_eq, alike.fields_eq]

theorem evaluationOrder_eq (alike : g.Alike h) : g.evaluationOrder = h.evaluationOrder := by
  rw [evaluationOrder, evaluationOrder, alike.ordering_eq, alike.fields_eq]

end Alike

end DependencyGraph

end MeasureSheet
