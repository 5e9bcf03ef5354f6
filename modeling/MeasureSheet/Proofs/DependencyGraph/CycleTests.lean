import MeasureSheet.Proofs.CycleRemoval.Candidates
import MeasureSheet.Proofs.DependencyGraph.CycleSearch
import MeasureSheet.Proofs.DependencyGraph.Ordering
import MeasureSheet.Proofs.DependencyGraph.Peeling

/-! Three questions are asked of the graph of a rule book: whether it is acyclic, where it has a
cycle, and in which order it can be evaluated. They are answered by three algorithms, which agree on
what a cycle is: a path of rules from a field back to itself.
-/

namespace MeasureSheet

namespace RuleBook

/-- A rule of the book derives the target and has the base as an input. -/
def Derives (book : RuleBook) (base target : Field) : Prop :=
  ∃ r ∈ book.rules, r.target = target ∧ base ∈ r.inputs

/-- No path of one rule or several leads from a field to itself. -/
def LoopFree (book : RuleBook) : Prop :=
  ∀ f, ¬ Relation.TransGen book.Derives f f

theorem derives_graph (book : RuleBook) : book.graph.Derives = book.Derives := by
  funext base target
  exact propext mem_dependencies_graph

theorem acyclic_graph_iff (book : RuleBook) : book.graph.Acyclic ↔ book.LoopFree := by
  unfold DependencyGraph.Acyclic DependencyGraph.DerivesFar LoopFree
  rw [derives_graph]

/-- A rule that takes its own target as an input is a loop by itself. -/
theorem LoopFree.target_not_mem_inputs {book : RuleBook} (loopFree : book.LoopFree) {r : Rule}
    (member : r ∈ book.rules)
    : r.target ∉ r.inputs :=
  fun input => loopFree r.target (.single ⟨r, member, rfl, input⟩)

end RuleBook

/-- The graph of a book has an evaluation order, shows no cycle to the search and passes the test
for acyclic graphs under one and the same condition, namely that no path of rules leads from a field
to itself, not even a single rule. So does every other test that tells which graphs have cycles.
-/
theorem cycleTests_agree {hasCycle : DependencyGraph → Bool}
    (decides : ∀ g, hasCycle g = true ↔ ∃ cycle, g.SimpleCycle cycle) (book : RuleBook)
    : ((∃ order, book.graph.evaluationOrder = .ok order) ↔ book.LoopFree)
      ∧ (book.graph.findCycle = none ↔ book.LoopFree)
      ∧ (book.graph.isAcyclic = true ↔ book.LoopFree)
      ∧ (hasCycle book.graph = false ↔ book.LoopFree)
      ∧ (book.LoopFree → ∀ r ∈ book.rules, r.target ∉ r.inputs) := by
  have other : hasCycle book.graph = false ↔ book.graph.Acyclic := by
    rw [← Bool.not_eq_true, decides, DependencyGraph.exists_simpleCycle_iff, not_not]
  have order := DependencyGraph.exists_evaluationOrder_iff.trans book.acyclic_graph_iff
  have search := DependencyGraph.findCycle_eq_none_iff.trans book.acyclic_graph_iff
  have test := DependencyGraph.isAcyclic_iff.trans book.acyclic_graph_iff
  exact ⟨order, search, test, other.trans book.acyclic_graph_iff,
    fun loopFree r => loopFree.target_not_mem_inputs⟩

/-- A book of two rules, of which one takes its own target as an input. -/
def selfFedBook : RuleBook :=
  .ofRules
    [
      {
        id := ⟨0⟩,
        target := .named "hip",
        relation := .proportion (.named "waist") 1.2,
        priority := 1
      },
      {
        id := ⟨1⟩,
        target := .named "seat",
        relation := .combine (.named "hip") .add (.named "seat"),
        priority := 1
      }
    ]

theorem selfFedBook_cycleTests_agree
    : (∀ g : DependencyGraph, (!g.isAcyclic) = true ↔ ∃ cycle, g.SimpleCycle cycle)
      ∧ ((∃ order, selfFedBook.graph.evaluationOrder = .ok order) ↔ selfFedBook.LoopFree)
      ∧ (selfFedBook.graph.findCycle = none ↔ selfFedBook.LoopFree)
      ∧ (selfFedBook.graph.isAcyclic = true ↔ selfFedBook.LoopFree)
      ∧ ((!selfFedBook.graph.isAcyclic) = false ↔ selfFedBook.LoopFree)
      ∧ selfFedBook.graph.isAcyclic = false
      ∧ ¬ selfFedBook.LoopFree := by
  have decides (g : DependencyGraph)
      : (!g.isAcyclic) = true ↔ ∃ cycle, g.SimpleCycle cycle := by
    rw [DependencyGraph.exists_simpleCycle_iff, ← DependencyGraph.isAcyclic_iff,
      Bool.not_eq_true', Bool.not_eq_true]
  obtain ⟨order, search, test, other, -⟩ := cycleTests_agree decides selfFedBook
  have fails : selfFedBook.graph.isAcyclic = false := by decide +kernel
  exact ⟨decides, order, search, test, other, fails, by simp [← test, fails]⟩

end MeasureSheet
