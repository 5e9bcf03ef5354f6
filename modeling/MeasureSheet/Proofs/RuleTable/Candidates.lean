import MeasureSheet.Proofs.CycleRemoval.Candidates
import MeasureSheet.Proofs.RuleTable.Acceptance

/-! The candidates of an accepted table. They are its rules, each under its own target, and what
they take as inputs stands before the target in the order, so no field is derived from itself.
-/

namespace MeasureSheet.RuleTable

variable {t : RuleTable}

theorem exists_entry_of_mem_candidates {f : Field} {r : Rule} (member : r ∈ t.candidates f)
    : ∃ rules, (f, rules) ∈ t.book.filed.entries ∧ r ∈ rules := by
  unfold candidates RuleBook.rulesFor at member
  cases found : t.book.filed.find? f with
  | none => simp [found] at member
  | some rules => exact ⟨rules, FieldMap.find?_eq_some_iff.mp found, by simpa [found] using member⟩

theorem Coherent.candidates_eq_nil (coherent : t.Coherent) {f : Field} (absent : f ∉ t.order)
    : t.candidates f = [] := by
  have missing : t.book.filed.find? f = none := by
    have := mt (coherent.targets f).mpr absent
    simpa [RuleBook.hasTarget, FieldMap.contains] using this
  simp [candidates, RuleBook.rulesFor, missing]

/-- A candidate for a field is a rule of the table that derives the field. -/
theorem Coherent.rule_of_candidate (coherent : t.Coherent) {f : Field} {r : Rule}
    (candidate : r ∈ t.candidates f)
    : r ∈ t.book.rules ∧ r.target = f := by
  obtain ⟨rules, entry, inside⟩ := exists_entry_of_mem_candidates candidate
  exact ⟨RuleBook.mem_rules.mpr ⟨_, entry, inside⟩, coherent.ownTarget _ entry r inside⟩

-- -----------------------------------------------------------------------------------------------
-- Dependencies

theorem Coherent.derives_of_candidate (coherent : t.Coherent) {f base : Field} {r : Rule}
    (candidate : r ∈ t.candidates f) (input : base ∈ r.inputs)
    : t.graph.Derives base f := by
  obtain ⟨member, rfl⟩ := coherent.rule_of_candidate candidate
  exact RuleBook.derives_of_mem_inputs member input

/-- The target of a rule is ordered, and behind the bases of the rule that are ordered. -/
theorem Coherent.before_of_derives (coherent : t.Coherent) {base target : Field}
    (step : t.graph.Derives base target)
    : target ∈ t.order ∧ (base ∈ t.order → t.order.idxOf base < t.order.idxOf target) := by
  obtain ⟨r, member, derived, input⟩ := RuleBook.mem_dependencies_graph.mp step
  obtain ⟨p, entry, inside⟩ := RuleBook.mem_rules.mp member
  obtain rfl : p.1 = target := (coherent.ownTarget p entry r inside).symm.trans derived
  have has : t.book.hasTarget p.1 :=
    Option.isSome_iff_exists.mpr ⟨p.2, FieldMap.find?_eq_some_iff.mpr entry⟩
  exact ⟨(coherent.targets p.1).mpr has, coherent.basesFirst p entry r inside base input⟩

theorem Coherent.input_before (coherent : t.Coherent) {f base : Field} {r : Rule}
    (candidate : r ∈ t.candidates f) (input : base ∈ r.inputs) (ordered : base ∈ t.order)
    : t.order.idxOf base < t.order.idxOf f :=
  (coherent.before_of_derives (coherent.derives_of_candidate candidate input)).2 ordered

/-- Positions in the order go up along the rules, so no field is derived from itself. -/
theorem Coherent.acyclic (coherent : t.Coherent) : t.graph.Acyclic := by
  have ahead {f g : Field} (far : t.graph.DerivesFar f g)
      : g ∈ t.order ∧ (f ∈ t.order → t.order.idxOf f < t.order.idxOf g) := by
    induction far with
    | single step => exact coherent.before_of_derives step
    | tail _ step ih =>
        obtain ⟨ordered, before⟩ := coherent.before_of_derives step
        exact ⟨ordered, fun start => Nat.lt_trans (ih.2 start) (before ih.1)⟩
  intro f around
  obtain ⟨ordered, before⟩ := ahead around
  exact Nat.lt_irrefl _ (before ordered)

end MeasureSheet.RuleTable
