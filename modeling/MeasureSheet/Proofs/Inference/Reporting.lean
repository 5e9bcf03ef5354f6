import MeasureSheet.Proofs.Inference.Exhaustion
import MeasureSheet.Proofs.Record.Histories
import MeasureSheet.Proofs.Relation.Evaluation

/-! Reports of inference. A run says of every target that was unknown what became of it: it was
filled by the rule that is reported for it, or it is unresolved. Nothing else in the record changes.
-/

namespace MeasureSheet

-- -----------------------------------------------------------------------------------------------
-- What is reported as filled

namespace Inference

variable (t : RuleTable) (i : Inference)

/-- The fields that were filled, in evaluation order. -/
def filledFields (i : Inference) : List Field :=
  i.filled.map (·.1)

/-- A visit reports its target as filled when it makes the target known, and nothing else. -/
theorem filledFields_visit (target : Field)
    : (i.visit t target).filledFields
      = i.filledFields
        ++ [target].filter fun f => !i.record.isKnown f && (i.visit t target).record.isKnown f := by
  unfold visit
  split
  next => simp
  next unknown =>
    have unknown : i.record.isKnown target = false := by simpa using unknown
    split
    next id value applied =>
      have filled := Record.isKnown_store_of_unknown unknown { value, provenance := .rule id }
      simp [filledFields, unknown, filled]
    next => simp [filledFields]

/-- Visits of different targets report as filled those that they make known, by induction on the
targets: no visit makes a later target known.
-/
theorem filledFields_foldl_visit {targets : List Field} (unique : targets.Nodup)
    : (targets.foldl (visit t) i).filledFields
      = i.filledFields
        ++ targets.filter fun f =>
          !i.record.isKnown f && (targets.foldl (visit t) i).record.isKnown f := by
  induction targets generalizing i with
  | nil => simp
  | cons target rest ih =>
      obtain ⟨fresh, unique⟩ := List.nodup_cons.mp unique
      have settled := isKnown_foldl_visit t (i.visit t target) fresh
      have untouched
          : ∀ f ∈ rest, (i.visit t target).record.isKnown f = i.record.isKnown f := by
        intro f later
        exact isKnown_visit_of_ne t i fun same => fresh (same ▸ later)
      have same
          : (rest.filter fun f =>
              !(i.visit t target).record.isKnown f
              && (rest.foldl (visit t) (i.visit t target)).record.isKnown f)
            = rest.filter fun f =>
              !i.record.isKnown f
              && (rest.foldl (visit t) (i.visit t target)).record.isKnown f :=
        List.filter_congr fun f later => by rw [untouched f later]
      rw [List.foldl_cons, ih (i.visit t target) unique, filledFields_visit, same,
        List.append_assoc]
      simp only [List.filter_cons, List.filter_nil, settled]
      split <;> rfl

/-- Every filled field holds a value that is ascribed to the rule reported for it. -/
def Ascribes (i : Inference) : Prop :=
  ∀ f id,
    (f, id) ∈ i.filled → ∃ value, i.record.measurement? f = some { value, provenance := .rule id }

variable {t i}

/-- A visit leaves filled fields alone, and reports the rule that it applies. -/
theorem Ascribes.visit (ascribes : i.Ascribes) (target : Field) : (i.visit t target).Ascribes := by
  unfold Inference.visit
  split
  · exact ascribes
  next unknown =>
    have unknown : i.record.isKnown target = false := by simpa using unknown
    split
    next applied value _ =>
      intro f id reported
      rw [Record.measurement?_store_of_unknown unknown]
      rcases List.mem_append.mp reported with earlier | new
      · obtain ⟨old, found⟩ := ascribes f id earlier
        have different : f ≠ target := by
          rintro rfl
          rw [Record.isKnown_eq_false_iff.mp unknown] at found
          cases found
        exact ⟨old, by rw [if_neg different, found]⟩
      · cases List.mem_singleton.mp new
        exact ⟨value, if_pos rfl⟩
    next => exact ascribes

/-- A run reports the rules that it applies, by induction on the targets. -/
theorem ascribes_inference (t : RuleTable) (given : Record) : (t.inference given).Ascribes :=
  List.foldlRecOn t.order (Inference.visit t)
    (fun _ _ reported => absurd reported List.not_mem_nil)
    fun _ ascribes target _ => ascribes.visit target

end Inference

-- -----------------------------------------------------------------------------------------------
-- Exact reports

/-- A report on a record is exact: it divides the targets that were unknown into filled and
unresolved ones, both in evaluation order. The filled fields are those that changed, and each holds
the finite value of the candidate that is reported for it.
-/
structure Inference.ExactOn (i : Inference) (t : RuleTable) (given : Record) : Prop where
  filledOnce : i.filledFields.Nodup
  unresolvedOnce : i.unresolved.Nodup
  apart : ∀ f ∈ i.filledFields, f ∉ i.unresolved
  filledInOrder : i.filledFields.Sublist t.order
  unresolvedInOrder : i.unresolved.Sublist t.order
  complete
    : ∀ f, f ∈ i.filledFields ∨ f ∈ i.unresolved ↔ f ∈ t.order ∧ given.isKnown f = false
  changed : ∀ f, i.record.measurement? f ≠ given.measurement? f ↔ f ∈ i.filledFields
  derived
    : ∀ f id,
        (f, id) ∈ i.filled
        → ∃ rule ∈ t.candidates f,
            rule.id = id
            ∧ ∃ value,
                value.isFinite
                ∧ rule.relation.evaluate i.record.value? = some value
                ∧ i.record.measurement? f = some { value, provenance := .rule id }
  unknown : ∀ f ∈ i.unresolved, i.record.isKnown f = false

namespace RuleTable

variable {t : RuleTable}

/-- What changed is known now, was unknown before, and is a target. -/
theorem Coherent.changed_iff (coherent : t.Coherent) {given : Record} {f : Field}
    : (t.infer given).measurement? f ≠ given.measurement? f
      ↔ f ∈ t.order ∧ given.isKnown f = false ∧ (t.infer given).isKnown f := by
  constructor
  · intro changed
    have excused := mt ((coherent.explains_infer given).kept f) changed
    obtain ⟨unknown, ordered⟩ := not_or.mp excused
    have unknown : given.isKnown f = false := by simpa using unknown
    refine ⟨Decidable.not_not.mp ordered, unknown, Record.isKnown_iff.mpr ?_⟩
    rwa [Record.isKnown_eq_false_iff.mp unknown] at changed
  · intro h
    obtain ⟨-, unknown, known⟩ := h
    rw [Record.isKnown_eq_false_iff.mp unknown]
    exact Record.isKnown_iff.mp known

/-- A field that became known holds the finite value of one of its candidates. -/
theorem Coherent.exists_candidate (coherent : t.Coherent) {given : Record} {f : Field}
    {m : Measurement} (unknown : given.isKnown f = false)
    (found : (t.infer given).measurement? f = some m)
    : ∃ rule ∈ t.candidates f,
        ∃ value,
          value.isFinite
          ∧ rule.relation.evaluate (t.infer given).value? = some value
          ∧ m = { value, provenance := .rule rule.id } := by
  rw [coherent.measurement?_infer, Record.isKnown_eq_false_iff.mp unknown, Option.none_or] at found
  obtain ⟨rule, candidate, value, follows, same⟩ := exists_of_answer? found
  exact ⟨rule, candidate, value, Relation.isFinite_of_evaluate follows, follows, same⟩

/-- What inference over an accepted table reports is exact, on every record: targets that were
unknown are told apart by whether they are known in the end.
-/
theorem inference_isExact (accepted : t.check = .ok ()) (given : Record)
    : (t.inference given).ExactOn t given := by
  have coherent := check_eq_ok_iff_coherent.mp accepted
  have filled
      : (t.inference given).filledFields
        = t.order.filter fun f => !given.isKnown f && (t.infer given).isKnown f :=
    Inference.filledFields_foldl_visit t (Inference.start given) coherent.unique
  have unresolved := coherent.unresolved_inference given
  have mem_filled {f : Field}
      : f ∈ (t.inference given).filledFields
        ↔ f ∈ t.order ∧ given.isKnown f = false ∧ (t.infer given).isKnown f := by
    simp [filled]
  have mem_unresolved {f : Field}
      : f ∈ (t.inference given).unresolved ↔ f ∈ t.order ∧ (t.infer given).isKnown f = false := by
    simp [unresolved]
  constructor
  case filledOnce => exact filled ▸ coherent.unique.filter _
  case unresolvedOnce => exact unresolved ▸ coherent.unique.filter _
  case apart =>
    intro f isFilled isUnresolved
    have known := (mem_filled.mp isFilled).2.2
    rw [(mem_unresolved.mp isUnresolved).2] at known
    cases known
  case filledInOrder => exact filled ▸ List.filter_sublist
  case unresolvedInOrder => exact unresolved ▸ List.filter_sublist
  case complete =>
    intro f
    rw [mem_filled, mem_unresolved]
    have kept := (Record.keptBy_infer t given).known f
    cases before : given.isKnown f <;> cases after : (t.infer given).isKnown f <;> simp_all
  case changed =>
    intro f
    rw [mem_filled]
    exact coherent.changed_iff
  case derived =>
    intro f id reported
    obtain ⟨-, unknown, -⟩ := mem_filled.mp (List.mem_map_of_mem reported)
    obtain ⟨value, found⟩ := Inference.ascribes_inference t given f id reported
    obtain ⟨rule, candidate, value, finite, follows, same⟩ :=
      coherent.exists_candidate unknown found
    cases same
    exact ⟨rule, candidate, rfl, value, finite, follows, found⟩
  case unknown => exact fun f member => (mem_unresolved.mp member).2

/-- A figure with a known seat, whose predicted belt is no number and whose buckle is infinite. -/
def dubiousFigure : Record :=
  ((Record.ofKnown [("waist", some 70.0), ("seat", some 95.0)]).store (.named "belt")
    { value := 0.0 / 0.0, provenance := .predicted }).store (.named "buckle")
    { value := 1.0 / 0.0, provenance := .rule (.ofRow 9) }

/-- Both candidates for the strap fail, and the seat is left as it was supplied. -/
theorem strapTable_inference_isExact
    : strapTable.check = .ok ()
      ∧ (strapTable.inference dubiousFigure).filled = [(.named "hip", .ofRow 0)]
      ∧ (strapTable.inference dubiousFigure).unresolved = [.named "strap"]
      ∧ (strapTable.inference dubiousFigure).ExactOn strapTable dubiousFigure := by
  have accepted : strapTable.check = .ok () := by decide +kernel
  exact ⟨accepted, by decide +kernel, by decide +kernel, inference_isExact accepted dubiousFigure⟩

end RuleTable

end MeasureSheet
