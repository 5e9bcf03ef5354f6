import MeasureSheet.Proofs.Except
import MeasureSheet.Proofs.RuleBook.Filing
import MeasureSheet.RuleTable

/-! The acceptance check of rule tables. It accepts exactly the tables whose order and rules fit
each other, each stage of it one condition on them.
-/

namespace MeasureSheet.RuleTable

/-- Order and rules of a table fit each other: the order lists the targets once, every list of rules
derives its target in ascending priority, and bases that are ordered stand before the target.
-/
structure Coherent (t : RuleTable) : Prop where
  unique : t.order.Nodup
  targets : ∀ f, f ∈ t.order ↔ t.book.hasTarget f
  sorted : ∀ p ∈ t.book.filed.entries, p.2.Pairwise fun r s => r.priority ≤ s.priority
  ownTarget : ∀ p ∈ t.book.filed.entries, ∀ r ∈ p.2, r.target = p.1
  basesFirst
    : ∀ p ∈ t.book.filed.entries,
      ∀ r ∈ p.2,
      ∀ base ∈ r.inputs,
        base ∈ t.order → t.order.idxOf base < t.order.idxOf p.1

-- -----------------------------------------------------------------------------------------------
-- Stages of the check

theorem firstRepeated?_eq_none_iff {seen fields : List Field}
    : firstRepeated? seen fields = none ↔ fields.Nodup ∧ ∀ f ∈ fields, f ∉ seen := by
  induction fields generalizing seen with
  | nil => simp [firstRepeated?]
  | cons f rest ih =>
      unfold firstRepeated?
      by_cases old : f ∈ seen
      · simp [old]
      · rw [if_neg old, ih, List.nodup_cons]
        constructor
        · intro h
          obtain ⟨unique, fresh⟩ := h
          refine ⟨⟨fun again => fresh f again List.mem_cons_self, unique⟩, ?_⟩
          intro other member
          rcases List.mem_cons.mp member with rfl | later
          · exact old
          · exact fun seenBefore => fresh other later (List.mem_cons_of_mem f seenBefore)
        · intro h
          obtain ⟨⟨absent, unique⟩, fresh⟩ := h
          refine ⟨unique, fun other later again => ?_⟩
          rcases List.mem_cons.mp again with rfl | seenBefore
          · exact absent later
          · exact fresh other (List.mem_cons_of_mem f later) seenBefore

theorem isSorted_iff {rules : List Rule}
    : isSorted rules ↔ rules.Pairwise fun r s => r.priority ≤ s.priority := by
  induction rules with
  | nil => simp [isSorted]
  | cons r rest ih =>
      rw [isSorted, Bool.and_eq_true, ih, List.pairwise_cons]
      constructor
      · intro h
        obtain ⟨first, sorted⟩ := h
        refine ⟨fun s member => ?_, sorted⟩
        cases rest with
        | nil => exact absurd member List.not_mem_nil
        | cons next later =>
            have step : r.priority ≤ next.priority := by simpa using first
            rcases List.mem_cons.mp member with rfl | member
            · exact step
            · exact Int32.le_trans step ((List.pairwise_cons.mp sorted).1 s member)
      · intro h
        obtain ⟨first, sorted⟩ := h
        refine ⟨?_, sorted⟩
        cases rest with
        | nil => rfl
        | cons next later => simpa using first next List.mem_cons_self

theorem idxOf?_eq_some_iff {order : List Field} {f : Field} {position : Nat}
    : order.idxOf? f = some position ↔ f ∈ order ∧ order.idxOf f = position := by
  induction order generalizing position with
  | nil => simp
  | cons g rest ih =>
      rw [List.idxOf?_cons, List.idxOf_cons]
      by_cases same : g = f
      · simp [same]
      · have different : (g == f) = false := beq_eq_false_iff_ne.mpr same
        simp only [different, Bool.false_eq_true, if_false, cond_false, Option.map_eq_some_iff, ih,
          List.mem_cons, Ne.symm same, false_or]
        constructor
        · intro h
          obtain ⟨place, ⟨member, same⟩, next⟩ := h
          exact ⟨member, same ▸ next⟩
        · intro h
          obtain ⟨member, next⟩ := h
          exact ⟨rest.idxOf f, ⟨member, rfl⟩, next⟩

/-- A rule passes when it derives its target from bases that are not ordered behind it. -/
theorem checkRule_eq_ok_iff {order : List Field} {target : Field} {position : Nat} {r : Rule}
    : checkRule order target position r = .ok ()
      ↔ r.target = target
        ∧ ∀ base ∈ r.inputs, base ∈ order → order.idxOf base < position := by
  have notBehind {base : Field}
      : ¬ (order.idxOf? base).any (position ≤ ·)
        ↔ (base ∈ order → order.idxOf base < position) := by
    cases found : order.idxOf? base with
    | none => simp [List.idxOf?_eq_none_iff.mp found]
    | some place =>
        obtain ⟨member, rfl⟩ := idxOf?_eq_some_iff.mp found
        simp [member]
  unfold checkRule
  by_cases own : r.target = target
  · rw [if_neg (not_not_intro own)]
    cases late : r.inputs.find? fun base => (order.idxOf? base).any (position ≤ ·) with
    | none =>
        rw [List.find?_eq_none] at late
        simp only [true_iff]
        exact ⟨own, fun base member => notBehind.mp (late base member)⟩
    | some base =>
        simp only [reduceCtorEq, false_iff]
        intro h
        obtain ⟨-, first⟩ := h
        have member := List.mem_of_find?_eq_some late
        have behind : (order.idxOf? base).any (position ≤ ·) := by simpa using List.find?_some late
        exact notBehind.mpr (first base member) behind
  · simp [own]

theorem checkTarget_eq_ok_iff {order : List Field} {target : Field} {rules : List Rule}
    : checkTarget order target rules = .ok ()
      ↔ target ∈ order
        ∧ isSorted rules
        ∧ ∀ r ∈ rules, checkRule order target (order.idxOf target) r = .ok () := by
  unfold checkTarget
  cases found : order.idxOf? target with
  | none => simp [List.idxOf?_eq_none_iff.mp found]
  | some position =>
      obtain ⟨member, rfl⟩ := idxOf?_eq_some_iff.mp found
      by_cases sorted : isSorted rules
      · simp only [sorted, if_true, forM_eq_ok_iff, member, true_and]
      · simp [sorted]

theorem check_eq_ok_iff_stages {t : RuleTable}
    : t.check = .ok ()
      ↔ firstRepeated? [] t.order = none
        ∧ (∀ p ∈ t.book.filed.entries, checkTarget t.order p.1 p.2 = .ok ())
        ∧ ∀ f ∈ t.order, t.book.hasTarget f := by
  unfold check
  cases repeated : firstRepeated? [] t.order with
  | some f => simp
  | none =>
      rw [← forM_eq_ok_iff]
      cases lists : t.book.filed.entries.forM fun p => checkTarget t.order p.1 p.2 with
      | error cause => simp [bind, Except.bind]
      | ok _ =>
          cases stray : t.order.find? fun f => !t.book.hasTarget f with
          | none =>
              have all : ∀ f ∈ t.order, t.book.hasTarget f := by
                simpa using List.find?_eq_none.mp stray
              simpa [bind, Except.bind] using all
          | some f =>
              have absent : t.book.hasTarget f = false := by simpa using List.find?_some stray
              have member := List.mem_of_find?_eq_some stray
              simp only [bind, Except.bind, reduceCtorEq, true_and, false_iff]
              exact fun all => by simp [all f member] at absent

/-- A table is accepted exactly when its order and its rules fit each other. -/
theorem check_eq_ok_iff_coherent {t : RuleTable} : t.check = .ok () ↔ t.Coherent := by
  have hasTarget_of_entry {p : Field × List Rule} (entry : p ∈ t.book.filed.entries)
      : t.book.hasTarget p.1 :=
    Option.isSome_iff_exists.mpr ⟨p.2, FieldMap.find?_eq_some_iff.mpr entry⟩
  rw [check_eq_ok_iff_stages, firstRepeated?_eq_none_iff]
  constructor
  · intro h
    obtain ⟨⟨unique, -⟩, lists, targets⟩ := h
    have stages p entry := checkTarget_eq_ok_iff.mp (lists p entry)
    have passed p entry r inside := checkRule_eq_ok_iff.mp ((stages p entry).2.2 r inside)
    refine {
      unique
      targets := fun f => ⟨targets f, fun has => ?_⟩
      sorted := fun p entry => isSorted_iff.mp (stages p entry).2.1
      ownTarget := fun p entry r inside => (passed p entry r inside).1
      basesFirst := fun p entry r inside => (passed p entry r inside).2
    }
    obtain ⟨rules, found⟩ := Option.isSome_iff_exists.mp has
    exact (stages _ (FieldMap.find?_eq_some_iff.mp found)).1
  · intro coherent
    refine ⟨⟨coherent.unique, by simp⟩, fun p entry => ?_, fun f => (coherent.targets f).mp⟩
    refine checkTarget_eq_ok_iff.mpr ⟨(coherent.targets p.1).mpr (hasTarget_of_entry entry),
      isSorted_iff.mpr (coherent.sorted p entry), fun r inside => ?_⟩
    exact checkRule_eq_ok_iff.mpr
      ⟨coherent.ownTarget p entry r inside, coherent.basesFirst p entry r inside⟩

end MeasureSheet.RuleTable
