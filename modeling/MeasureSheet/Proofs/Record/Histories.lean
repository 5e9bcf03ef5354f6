import MeasureSheet.Blending
import MeasureSheet.Inference
import MeasureSheet.Proofs.Record.Lookup

/-! Histories of records. Whatever is stored, inferred, blended and rounded, and in whatever order,
supplied measurements stay as they are and no known field becomes unknown.
-/

namespace MeasureSheet

-- -----------------------------------------------------------------------------------------------
-- What a later record owes to an earlier one

namespace Record

/-- A record keeps another: its supplied measurements unchanged, its known fields known. -/
structure KeptBy (earlier later : Record) : Prop where
  supplied
    : ∀ f m,
        earlier.measurement? f = some m
        → m.provenance = .supplied
        → later.measurement? f = some m
  known : ∀ f, earlier.isKnown f → later.isKnown f

theorem KeptBy.refl (r : Record) : r.KeptBy r :=
  ⟨fun _ _ found _ => found, fun _ known => known⟩

theorem KeptBy.trans {r s u : Record} (first : r.KeptBy s) (second : s.KeptBy u) : r.KeptBy u where
  supplied f m found own := second.supplied f m (first.supplied f m found own) own
  known f known := second.known f (first.known f known)

/-- When every single step keeps the record of a state, a list of steps keeps it, by list induction.
-/
theorem keptBy_foldl {State Step : Type} (record : State → Record) {step : State → Step → State}
    (each : ∀ i a, (record i).KeptBy (record (step i a))) (steps : List Step) (i : State)
    : (record i).KeptBy (record (steps.foldl step i)) := by
  induction steps generalizing i with
  | nil => exact .refl _
  | cons a rest ih => exact (each i a).trans (ih (step i a))

-- -----------------------------------------------------------------------------------------------
-- Single operations

theorem keptBy_store (r : Record) (f : Field) (m : Measurement) : r.KeptBy (r.store f m) := by
  constructor
  · intro g m' found own
    rw [measurement?_store, if_neg, found]
    rintro ⟨rfl, free⟩
    have supplied := isSupplied_iff.mpr ⟨m', found, own⟩
    rw [free] at supplied
    cases supplied
  · intro g known
    rw [isKnown_iff] at known ⊢
    rw [measurement?_store]
    split
    · exact Option.some_ne_none m
    · exact known

theorem keptBy_visit (t : RuleTable) (i : Inference) (target : Field)
    : i.record.KeptBy (i.visit t target).record := by
  unfold Inference.visit
  split
  · exact .refl _
  · split
    · exact keptBy_store _ _ _
    · exact .refl _

/-- Inference only stores, and only for unknown fields. -/
theorem keptBy_infer (t : RuleTable) (r : Record) : r.KeptBy (t.infer r) :=
  keptBy_foldl Inference.record (keptBy_visit t) t.order (Inference.start r)

/-- Blending only stores, whatever record the predictions are weighed against. -/
theorem keptBy_blend (r : Record) (w : BlendWeights) (predictions : List (Field × Float))
    : r.KeptBy (r.blend w predictions) := by
  apply keptBy_foldl id
  intro merged p
  split
  · exact keptBy_store _ _ _
  · exact .refl _

theorem measurement?_rounded (r : Record) (places : Nat) (f : Field)
    : (r.rounded places).measurement? f
      = (r.measurement? f).map fun m =>
          if m.provenance = .supplied then m else { m with value := roundValue places m.value } :=
  FieldMap.find?_map r.entries _ f

theorem keptBy_rounded (r : Record) (places : Nat) : r.KeptBy (r.rounded places) := by
  constructor
  · intro f m found own
    rw [measurement?_rounded, found, Option.map_some, if_pos own]
  · intro f known
    rw [isKnown_iff] at known ⊢
    rw [measurement?_rounded]
    simpa using known

end Record

-- -----------------------------------------------------------------------------------------------
-- Histories

/-- What can be done to a record. -/
inductive RecordStep where
  | store (f : Field) (m : Measurement)
  | infer (t : RuleTable)
  | blend (w : BlendWeights) (predictions : List (Field × Float))
  | round (places : Nat)

def RecordStep.apply (r : Record) : RecordStep → Record
  | store f m => r.store f m
  | infer t => t.infer r
  | blend w predictions => r.blend w predictions
  | round places => r.rounded places

/-- The record after some steps. -/
def Record.after (r : Record) (steps : List RecordStep) : Record :=
  steps.foldl RecordStep.apply r

theorem RecordStep.keptBy_apply (r : Record) (step : RecordStep) : r.KeptBy (step.apply r) := by
  cases step with
  | store f m => exact r.keptBy_store f m
  | infer t => exact r.keptBy_infer t
  | blend w predictions => exact r.keptBy_blend w predictions
  | round places => exact r.keptBy_rounded places

/-- At every later point of a history a record is kept as it was at an earlier one. -/
theorem Record.after_keptBy_after (r : Record) (earlier later : List RecordStep)
    : (r.after earlier).KeptBy (r.after (earlier ++ later)) := by
  rw [after, after, List.foldl_append]
  exact keptBy_foldl id RecordStep.keptBy_apply later _

end MeasureSheet
