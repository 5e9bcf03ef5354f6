import MeasureSheet.Proofs.DependencyGraph.Ordering
import MeasureSheet.Proofs.DependencyGraph.Peeling

/-! The fields that get no place in an evaluation order. A counter is left above zero exactly where
a parent is never placed, and that happens exactly on cycles and to what is derived from them.
-/

namespace MeasureSheet.DependencyGraph

variable {g : DependencyGraph}

/-- A field that is missing a parent is not placed: its parents would have been placed before. -/
theorem missing_ordering_pos_iff {f : Field} (inFields : f ∈ g.fields)
    : 0 < g.missing g.ordering.placed f ↔ g.Blocked f := by
  rw [← not_iff_not, ← mem_placed_ordering_iff inFields, Nat.not_lt, Nat.le_zero,
    missing_eq_zero_iff]
  constructor
  · exact mem_placed_ordering inFields
  · exact fun placed base => g.sound_ordering.ordered.base_mem placed

/-- The fields whose counters stay above zero are the blocked ones, of which all have counters. -/
theorem mem_unordered_iff {f : Field}
    : f ∈ g.fields.filter (fun f => (g.ordering.waiting.find? f).any fun n => 0 < n)
      ↔ g.Blocked f := by
  rw [List.mem_filter]
  constructor
  · rintro ⟨inFields, waits⟩
    rw [g.sound_ordering.waiting f inFields, Option.any_some, decide_eq_true_eq] at waits
    exact (missing_ordering_pos_iff inFields).mp waits
  · intro blocked
    have inFields := blocked.mem_fields
    refine ⟨inFields, ?_⟩
    rw [g.sound_ordering.waiting f inFields, Option.any_some, decide_eq_true_eq]
    exact (missing_ordering_pos_iff inFields).mpr blocked

/-- A graph with cycles gets no order. Reported are, in lexical order and each once, the fields on
its cycles with those derived from them, and no others.
-/
theorem evaluationOrder_of_cyclic (cyclic : ¬ g.Acyclic)
    : ∃ e,
        g.evaluationOrder = .error e
        ∧ e.unordered.Pairwise (· < ·)
        ∧ ∀ f, f ∈ e.unordered ↔ ∃ hub, g.DerivesFar hub hub ∧ g.Reaches hub f := by
  cases result : g.evaluationOrder with
  | ok order => exact absurd (exists_evaluationOrder_iff.mp ⟨order, result⟩) cyclic
  | error e =>
      obtain ⟨-, unordered⟩ := evaluationOrder_eq_error_iff.mp result
      refine ⟨e, rfl, ?_, fun f => ?_⟩
      · rw [← unordered]
        exact (Field.pairwise_ascending _).filter _
      · rw [← unordered]
        exact mem_unordered_iff

/-- Hip and seat derive each other, the thigh follows from one of them and the arm from neither. -/
def seatedGraph : DependencyGraph where
  dependencies :=
    [
      { base := .named "height", target := .named "arm" },
      { base := .named "waist", target := .named "hip" },
      { base := .named "seat", target := .named "hip" },
      { base := .named "hip", target := .named "seat" },
      { base := .named "seat", target := .named "thigh" }
    ]

theorem seatedGraph_unordered
    : ¬ seatedGraph.Acyclic
      ∧ (∃ e,
          seatedGraph.evaluationOrder = .error e
          ∧ e.unordered.Pairwise (· < ·)
          ∧ ∀ f,
              f ∈ e.unordered
              ↔ ∃ hub, seatedGraph.DerivesFar hub hub ∧ seatedGraph.Reaches hub f)
      ∧ seatedGraph.evaluationOrder
        = .error { unordered := [.named "hip", .named "seat", .named "thigh"] } := by
  have cyclic : ¬ seatedGraph.Acyclic := fun acyclic =>
    absurd (isAcyclic_iff.mpr acyclic) (by decide +kernel)
  exact ⟨cyclic, evaluationOrder_of_cyclic cyclic, by decide +kernel⟩

end MeasureSheet.DependencyGraph
