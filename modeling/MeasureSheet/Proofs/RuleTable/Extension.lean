import MeasureSheet.Proofs.Compilation.WellFormedness
import MeasureSheet.Proofs.DependencyGraph.LeastOrder
import MeasureSheet.Proofs.RuleTable.Candidates

/-! Orders that extend the order of a table. The acceptance check looks at targets only, and at
bases only where they are targets themselves, but what it accepts is part of an order of all fields.
-/

namespace MeasureSheet

/-- The targets of the book and the fields of its graph, which are the inputs of rules besides. -/
def RuleBook.fields (book : RuleBook) : List Field :=
  Field.ascending (book.targets ++ book.graph.fields)

theorem RuleBook.mem_fields {book : RuleBook} {f : Field}
    : f ∈ book.fields ↔ book.hasTarget f ∨ f ∈ book.graph.fields := by
  rw [fields, Field.mem_ascending, List.mem_append, targets, FieldMap.mem_keys_iff_contains]
  rfl

theorem RuleBook.nodup_fields (book : RuleBook) : book.fields.Nodup :=
  (Field.pairwise_ascending _).imp Field.ne_of_lt

namespace RuleTable

variable {t : RuleTable} {whole : List Field}

/-- The list holds all fields of the table, each once and behind its bases, and without the fields
that are only inputs it is the order of the table.
-/
structure ExtendedBy (t : RuleTable) (whole : List Field) : Prop where
  complete : whole.Perm t.book.fields
  basesFirst : t.graph.BasesFirst whole
  restricted : whole.filter t.book.hasTarget = t.order

-- -----------------------------------------------------------------------------------------------
-- From the order of the targets to one of all fields

/-- The fields that are only inputs, and behind them the targets in their order. -/
def extension (t : RuleTable) : List Field :=
  t.book.fields.filter (fun f => !t.book.hasTarget f) ++ t.order

theorem Coherent.order_perm (coherent : t.Coherent)
    : (t.book.fields.filter t.book.hasTarget).Perm t.order := by
  rw [List.perm_ext_iff_of_nodup (t.book.nodup_fields.filter _) coherent.unique]
  intro f
  rw [List.mem_filter, RuleBook.mem_fields, coherent.targets]
  exact ⟨fun h => h.2, fun has => ⟨Or.inl has, has⟩⟩

/-- Fields that are only inputs have no bases, so they can stand in front of all targets. -/
theorem Coherent.basesFirst_extension (coherent : t.Coherent)
    : t.graph.BasesFirst t.extension := by
  intro f _ base step
  obtain ⟨ordered, before⟩ := coherent.before_of_derives step
  have notInput {g : Field} (ordered : g ∈ t.order)
      : g ∉ t.book.fields.filter fun f => !t.book.hasTarget f := by
    simp [(coherent.targets g).mp ordered]
  rw [extension, List.idxOf_append_of_notMem (notInput ordered)]
  by_cases target : base ∈ t.order
  · rw [List.idxOf_append_of_notMem (notInput target)]
    exact Nat.add_lt_add_left (before target) _
  · have input : base ∈ t.book.fields.filter fun f => !t.book.hasTarget f := by
      have unordered : ¬ t.book.hasTarget base := mt (coherent.targets base).mpr target
      rw [List.mem_filter, RuleBook.mem_fields]
      exact ⟨Or.inr step.base_mem_fields, by simpa using unordered⟩
    rw [List.idxOf_append_of_mem input]
    exact Nat.lt_add_right _ (List.idxOf_lt_length_of_mem input)

theorem Coherent.extendedBy_extension (coherent : t.Coherent) : t.ExtendedBy t.extension where
  complete := (List.perm_append_comm.trans (coherent.order_perm.symm.append_right _)).trans
    (List.filter_append_perm t.book.hasTarget t.book.fields)
  basesFirst := coherent.basesFirst_extension
  restricted := by
    have targets : t.order.filter t.book.hasTarget = t.order :=
      List.filter_eq_self.mpr fun f => (coherent.targets f).mp
    simp [extension, targets, List.filter_filter]

-- -----------------------------------------------------------------------------------------------
-- From an order of all fields to that of the targets

/-- An order of all fields leaves one that fits, when each list is sorted and derives its target. -/
theorem ExtendedBy.coherent (extended : t.ExtendedBy whole)
    (sorted : ∀ p ∈ t.book.filed.entries, p.2.Pairwise fun r s => r.priority ≤ s.priority)
    (ownTarget : ∀ p ∈ t.book.filed.entries, ∀ r ∈ p.2, r.target = p.1)
    : t.Coherent := by
  obtain ⟨complete, basesFirst, restricted⟩ := extended
  refine {
    unique := restricted ▸ (complete.nodup_iff.mpr t.book.nodup_fields).filter _
    targets := fun f => ?_
    sorted
    ownTarget
    basesFirst := fun p entry r inside base input ordered => ?_
  }
  · rw [← restricted, List.mem_filter, complete.mem_iff, RuleBook.mem_fields]
    exact ⟨fun h => h.2, fun has => ⟨Or.inl has, has⟩⟩
  · have step : t.graph.Derives base r.target :=
      RuleBook.derives_of_mem_inputs (RuleBook.mem_rules.mpr ⟨p, entry, inside⟩) input
    have known : r.target ∈ whole :=
      complete.mem_iff.mpr (RuleBook.mem_fields.mpr (Or.inr step.target_mem_fields))
    rw [← ownTarget p entry r inside]
    rw [← restricted] at ordered ⊢
    exact idxOf_filter_lt (List.mem_filter.mp ordered).2 (basesFirst r.target known base step)

/-- A table fits when its lists are sorted, each under its own target, and its order is what some
order of all fields leaves.
-/
theorem coherent_iff_exists_extendedBy
    : t.Coherent
      ↔ (∀ p ∈ t.book.filed.entries, p.2.Pairwise fun r s => r.priority ≤ s.priority)
        ∧ (∀ p ∈ t.book.filed.entries, ∀ r ∈ p.2, r.target = p.1)
        ∧ ∃ whole, t.ExtendedBy whole := by
  constructor
  · intro coherent
    exact ⟨coherent.sorted, coherent.ownTarget, t.extension, coherent.extendedBy_extension⟩
  · rintro ⟨sorted, ownTarget, whole, extended⟩
    exact extended.coherent sorted ownTarget

/-- When no target is without rules, the fields of the table are those of its graph. -/
theorem ExtendedBy.orders (extended : t.ExtendedBy whole) (filed : t.book.Filed)
    : t.graph.Orders whole := by
  refine ⟨extended.complete.trans ?_, extended.basesFirst⟩
  rw [List.perm_ext_iff_of_nodup t.book.nodup_fields t.graph.nodup_fields]
  intro f
  rw [RuleBook.mem_fields, filed.hasTarget_iff]
  refine or_iff_right_of_imp ?_
  rintro ⟨r, member, rfl⟩
  exact RuleBook.target_mem_fields member

-- -----------------------------------------------------------------------------------------------
-- The acceptance check

/-- The check accepts exactly the tables whose order and rules fit each other. An accepted table has
a graph without cycles that can be ordered, no rule takes its own target as an input, and its order
is what an order of all fields leaves when only the targets are kept. The fields are those of the
graph when every target has a rule; a target without rules is a field of the table only.
-/
theorem check_decidesOrder (t : RuleTable)
    : (t.check = .ok () ↔ t.Coherent)
      ∧ (t.check = .ok ()
        → t.graph.Acyclic
          ∧ (∀ r ∈ t.book.rules, r.target ∉ r.inputs)
          ∧ (∃ sorted, t.graph.evaluationOrder = .ok sorted)
          ∧ ∃ whole,
              t.ExtendedBy whole
              ∧ ((∀ p ∈ t.book.filed.entries, p.2 ≠ []) → t.graph.Orders whole)) := by
  refine ⟨check_eq_ok_iff_coherent, fun accepted => ?_⟩
  have coherent := check_eq_ok_iff_coherent.mp accepted
  obtain ⟨-, ownTarget, whole, extended⟩ := coherent_iff_exists_extendedBy.mp coherent
  refine ⟨coherent.acyclic, fun r member input => ?_, coherent.acyclic.exists_evaluationOrder,
    whole, extended, fun nonempty => extended.orders ⟨nonempty, ownTarget⟩⟩
  exact coherent.acyclic r.target (.single (RuleBook.derives_of_mem_inputs member input))

/-- A table with two candidates for one target, inputs that are no targets, and no rule for one. -/
def looseTable : RuleTable where
  order := [.named "hip", .named "arm", .named "bust"]
  book := {
    filed := .ofList
      [
        (.named "bust",
          [{
            id := ⟨2⟩,
            target := .named "bust",
            relation := .combine (.named "hip") .add (.named "waist"),
            priority := 1
          }]),
        (.named "hip",
          [
            {
              id := ⟨1⟩,
              target := .named "hip",
              relation := .ratio (.named "waist") 1.25,
              priority := -1
            },
            {
              id := ⟨0⟩,
              target := .named "hip",
              relation := .proportion (.named "height") 0.5,
              priority := -1
            }
          ]),
        (.named "arm", [])
      ]
  }
  descriptions := ∅

theorem looseTable_isOrdered
    : looseTable.check = .ok ()
      ∧ looseTable.graph.Acyclic
      ∧ (∃ sorted, looseTable.graph.evaluationOrder = .ok sorted)
      ∧ ∃ whole, looseTable.ExtendedBy whole := by
  have accepted : looseTable.check = .ok () := by decide +kernel
  obtain ⟨-, consequences⟩ := looseTable.check_decidesOrder
  obtain ⟨acyclic, -, ordered, whole, extended, -⟩ := consequences accepted
  exact ⟨accepted, acyclic, ordered, whole, extended⟩

end RuleTable

end MeasureSheet
