import Mathlib.Order.Bounds.Defs
import MeasureSheet.Proofs.Inference.Exhaustion
import MeasureSheet.Proofs.Record.Histories
import MeasureSheet.Proofs.Relation.Evaluation

/-! Completeness of inference. When no relation comes to a value that is not finite, one run makes
known whatever follows by the rules from what was known: the least fields that are closed under
them.
-/

namespace MeasureSheet.RuleTable

variable {t : RuleTable} {given : Record} {fields : Set Field}

/-- Fields that are closed under the rules of a table over a record: they have what is known in the
record, and every target with a candidate all of whose inputs they have.
-/
structure ClosedOver (t : RuleTable) (given : Record) (fields : Set Field) : Prop where
  known : ∀ f, given.isKnown f → f ∈ fields
  derived
    : ∀ f ∈ t.order,
      ∀ rule ∈ t.candidates f,
        (∀ base ∈ rule.inputs, base ∈ fields) → f ∈ fields

/-- Every candidate whose inputs are all known in a record has a value over it, which is to say that
it comes to a finite number.
-/
def EvaluatesOver (t : RuleTable) (r : Record) : Prop :=
  ∀ f ∈ t.order,
    ∀ rule ∈ t.candidates f,
      (∀ base ∈ rule.inputs, r.isKnown base) → (rule.relation.evaluate r.value?).isSome

instance (t : RuleTable) (r : Record) : Decidable (t.EvaluatesOver r) :=
  inferInstanceAs (Decidable (∀ f ∈ t.order, ∀ rule ∈ t.candidates f, _ → _))

-- -----------------------------------------------------------------------------------------------
-- No more than what follows

/-- Closed fields stay closed when less is known. -/
theorem ClosedOver.of_less {given' : Record} (closed : t.ClosedOver given' fields)
    (less : ∀ f, given.isKnown f → given'.isKnown f)
    : t.ClosedOver given fields where
  known f known := closed.known f (less f known)
  derived := closed.derived

/-- A visit leaves what is known among closed fields: it fills a target whose inputs are known. -/
theorem ClosedOver.mem_of_visit (closed : t.ClosedOver given fields) {i : Inference}
    (inside : ∀ f, i.record.isKnown f → f ∈ fields) {target : Field} (ordered : target ∈ t.order)
    : ∀ f, (i.visit t target).record.isKnown f → f ∈ fields := by
  intro f known
  rw [Record.isKnown_iff, measurement?_visit] at known
  split at known
  next visited =>
    obtain ⟨rfl, -⟩ := visited
    obtain ⟨m, said⟩ := Option.ne_none_iff_exists'.mp known
    obtain ⟨rule, candidate, value, follows, -⟩ := exists_of_answer? said
    refine closed.derived f ordered rule candidate fun base input => inside base ?_
    rw [Record.isKnown_eq_isSome_value?]
    exact Relation.isSome_of_evaluate follows base input
  next => exact inside f (Record.isKnown_iff.mpr known)

/-- Inference makes nothing known outside closed fields, by induction on the targets. -/
theorem ClosedOver.mem_of_infer (closed : t.ClosedOver given fields)
    : ∀ f, (t.infer given).isKnown f → f ∈ fields := by
  have general (targets : List Field) (ordered : targets ⊆ t.order) (i : Inference)
      (inside : ∀ f, i.record.isKnown f → f ∈ fields)
      : ∀ f, (targets.foldl (Inference.visit t) i).record.isKnown f → f ∈ fields := by
    induction targets generalizing i with
    | nil => exact inside
    | cons target rest ih =>
        obtain ⟨member, ordered⟩ := List.cons_subset.mp ordered
        exact ih ordered (i.visit t target) (closed.mem_of_visit inside member)
  exact general t.order (List.Subset.refl _) (Inference.start given) closed.known

-- -----------------------------------------------------------------------------------------------
-- No less than what follows

/-- What is known after inference is closed when all candidates evaluate over it, since none that
does is left for an unknown target.
-/
theorem Coherent.closedOver_infer (coherent : t.Coherent)
    (evaluates : t.EvaluatesOver (t.infer given))
    : t.ClosedOver given {f | (t.infer given).isKnown f} where
  known := (Record.keptBy_infer t given).known
  derived f ordered rule candidate inputs := by
    by_contra unknown
    have unknown : (t.infer given).isKnown f = false := by simpa using unknown
    have value := evaluates f ordered rule candidate inputs
    rw [coherent.exhausts_infer given f ordered unknown rule candidate] at value
    cases value

/-- Where all candidates evaluate over what an accepted table infers, the fields known in the end
are the least ones that are closed under its rules over what was known. Then whatever is inferred
from less is known as well, whether or not all candidates evaluate there.
-/
theorem isLeast_known_infer (accepted : t.check = .ok ())
    : (∀ given,
        t.EvaluatesOver (t.infer given)
        → IsLeast {fields | t.ClosedOver given fields} {f | (t.infer given).isKnown f})
      ∧ ∀ given given',
          t.EvaluatesOver (t.infer given')
          → (∀ f, given.isKnown f → given'.isKnown f)
          → ∀ f, (t.infer given).isKnown f → (t.infer given').isKnown f := by
  have coherent := check_eq_ok_iff_coherent.mp accepted
  constructor
  · intro given evaluates
    exact ⟨coherent.closedOver_infer evaluates, fun _ closed => closed.mem_of_infer⟩
  · intro given given' evaluates less
    exact ((coherent.closedOver_infer evaluates).of_less less).mem_of_infer

/-- With a belt that is not zero the hip has another value, but everything known stays known. -/
theorem figureTable_isLeast_known
    : let t := figureTable [.named "hip", .named "thigh", .named "calf"]
      let given : Record := .ofKnown [("waist", some 70.0)]
      let given' : Record := .ofKnown [("waist", some 70.0), ("belt", some 35.0)]
      t.check = .ok ()
      ∧ t.EvaluatesOver (t.infer given')
      ∧ (∀ f, given.isKnown f → given'.isKnown f)
      ∧ (t.infer given).value? (.named "hip") = some 105.0
      ∧ (t.infer given').value? (.named "hip") = some 2.0
      ∧ IsLeast {fields | t.ClosedOver given' fields} {f | (t.infer given').isKnown f}
      ∧ ∀ f, (t.infer given).isKnown f → (t.infer given').isKnown f := by
  intro t given given'
  have accepted : t.check = .ok () := rfl
  have evaluates : t.EvaluatesOver (t.infer given') := by decide +kernel
  have less : ∀ f, given.isKnown f → given'.isKnown f := by
    intro f known
    have only : ∀ g ∈ given.entries.keys, given'.isKnown g := by decide +kernel
    exact only f (FieldMap.mem_keys_iff_contains.mpr known)
  obtain ⟨least, more⟩ := isLeast_known_infer accepted
  exact ⟨accepted, evaluates, less, by decide +kernel, by decide +kernel, least given' evaluates,
    more given given' evaluates less⟩

end MeasureSheet.RuleTable
