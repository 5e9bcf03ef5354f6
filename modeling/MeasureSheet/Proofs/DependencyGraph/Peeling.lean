import MeasureSheet.Proofs.DependencyGraph.Reachability

/-! Peeling decides whether a graph has cycles. What peeling leaves feeds itself, so that it would
lead back forever in a graph without cycles, and the dependencies of a cycle are never peeled off.
-/

namespace MeasureSheet.DependencyGraph

variable {g : DependencyGraph}

theorem mem_peel {d : Dependency} {dependencies : List Dependency}
    : d ∈ peel dependencies ↔ d ∈ dependencies ∧ ∃ e ∈ dependencies, e.target = d.base := by
  simp [peel]

/-- Every dependency that is left has a base which is a target among those left. -/
def FeedsItself (dependencies : List Dependency) : Prop :=
  ∀ d ∈ dependencies, ∃ e ∈ dependencies, e.target = d.base

theorem core_succ (rounds : Nat) (dependencies : List Dependency)
    : core (rounds + 1) dependencies
      = if (peel dependencies).length = dependencies.length then dependencies
        else core rounds (peel dependencies) :=
  rfl

theorem core_subset (rounds : Nat) (dependencies : List Dependency)
    : core rounds dependencies ⊆ dependencies := by
  induction rounds generalizing dependencies with
  | zero => exact List.Subset.refl _
  | succ rounds ih =>
      rw [core_succ]
      split
      · exact List.Subset.refl _
      · exact List.Subset.trans (ih _) (List.filter_sublist.subset)

/-- As many rounds as there are dependencies reach a core from which nothing comes off. -/
theorem feedsItself_core {rounds : Nat} {dependencies : List Dependency}
    (enough : dependencies.length ≤ rounds)
    : FeedsItself (core rounds dependencies) := by
  induction rounds generalizing dependencies with
  | zero =>
      have empty : dependencies = [] := List.length_eq_zero_iff.mp (Nat.le_zero.mp enough)
      intro d member
      rw [core, empty] at member
      exact absurd member List.not_mem_nil
  | succ rounds ih =>
      rw [core_succ]
      split
      next stable =>
        have same : peel dependencies = dependencies :=
          List.filter_sublist.eq_of_length stable
        intro d member
        exact (mem_peel.mp (same.symm ▸ member)).2
      next shrinks =>
        have shorter : (peel dependencies).length ≤ dependencies.length :=
          List.filter_sublist.length_le
        apply ih
        omega

/-- Dependencies of a kind that feeds itself are never peeled off. -/
theorem mem_core {kind : Dependency → Prop}
    (fed : ∀ d, kind d → ∃ e, kind e ∧ e.target = d.base) {rounds : Nat}
    {dependencies : List Dependency} (all : ∀ d, kind d → d ∈ dependencies) {d : Dependency}
    (ofKind : kind d)
    : d ∈ core rounds dependencies := by
  induction rounds generalizing dependencies with
  | zero => exact all d ofKind
  | succ rounds ih =>
      rw [core_succ]
      split
      · exact all d ofKind
      · apply ih
        intro e kindE
        obtain ⟨feeder, kindFeeder, same⟩ := fed e kindE
        exact mem_peel.mpr ⟨all e kindE, feeder, all feeder kindFeeder, same⟩

/-- In a graph without cycles nothing feeds itself, by induction along its dependencies. -/
theorem Acyclic.not_target (acyclic : g.Acyclic) {dependencies : List Dependency}
    (subset : dependencies ⊆ g.dependencies) (feeds : FeedsItself dependencies) (f : Field)
    : ∀ d ∈ dependencies, d.target ≠ f := by
  induction f using acyclic.wellFounded.induction with
  | h f ih =>
      rintro d member rfl
      obtain ⟨e, feeder, same⟩ := feeds d member
      exact ih d.base (subset member) e feeder same

/-- The dependencies that closed ways through a field are made of feed themselves. -/
theorem exists_feeder_of_around {f : Field} (around : g.DerivesFar f f) {d : Dependency}
    (onWay : d ∈ g.dependencies ∧ g.Reaches f d.base ∧ g.Reaches d.target f)
    : ∃ e, (e ∈ g.dependencies ∧ g.Reaches f e.base ∧ g.Reaches e.target f)
        ∧ e.target = d.base := by
  obtain ⟨member, fromField, toField⟩ := onWay
  have far : g.DerivesFar f d.base := by
    rcases Relation.reflTransGen_iff_eq_or_transGen.mp fromField with same | far
    · exact same ▸ around
    · exact far
  obtain ⟨before, path, step⟩ := Relation.TransGen.tail'_iff.mp far
  exact ⟨{ base := before, target := d.base }, ⟨step, path, .head member toField⟩, rfl⟩

/-- A graph passes the test exactly when no field is derived from itself. -/
theorem isAcyclic_iff : g.isAcyclic ↔ g.Acyclic := by
  unfold isAcyclic
  rw [List.isEmpty_iff]
  constructor
  · intro empty f around
    obtain ⟨child, step, back⟩ := Relation.TransGen.head'_iff.mp around
    -- The first dependency of the closed way is of a kind that feeds itself, so it is left.
    have left : { base := f, target := child } ∈ core g.dependencies.length g.dependencies :=
      mem_core (fun d => exists_feeder_of_around around) (fun d onWay => onWay.1)
        ⟨step, .refl, back⟩
    rw [empty] at left
    exact absurd left List.not_mem_nil
  · intro acyclic
    apply List.eq_nil_iff_forall_not_mem.mpr
    intro d member
    have feeds := feedsItself_core (Nat.le_refl g.dependencies.length)
    exact acyclic.not_target (core_subset _ _) feeds d.target d member rfl

end MeasureSheet.DependencyGraph
