import MeasureSheet.Proofs.Record.Sources

/-! Repeated blending. One pass over some predictions weighs the last finite one of each field
against the record as it was, and leaves no field that the same predictions could fill or weigh
again.
-/

namespace MeasureSheet

/-- What blending leaves for a field, given what the record holds for it and the last finite
prediction: a rule's value is weighed against the prediction and keeps the number of its rule, a
missing value is taken from the prediction, and in every other case the field stays as it is.
-/
inductive Merged (w : BlendWeights)
    : (held : Option Measurement)
      → (predicted : Option Float)
      → Option Measurement
      → Prop where
  | unpredicted (held : Option Measurement) : Merged w held none held
  | unruled {m : Measurement} (predicted : Float) (other : ∀ id, m.provenance ≠ .rule id)
    : Merged w (some m) (some predicted) (some m)
  | blended (value predicted : Float) (id : RuleId)
    : Merged w (some { value, provenance := .rule id }) (some predicted)
        (some { value := w.model * predicted + w.rule * value, provenance := .blended id })
  | predicted (predicted : Float)
    : Merged w none (some predicted) (some { value := predicted, provenance := .predicted })

namespace Record

variable {r : Record} {w w' : BlendWeights} {predictions : List (Field × Float)}

theorem merged_predicted? (r : Record) (w : BlendWeights) (f : Field) {x : Float}
    (finite : x.isFinite)
    : Merged w (r.measurement? f) (some x) ((r.predicted? w f x).or (r.measurement? f)) := by
  cases held : r.measurement? f with
  | none =>
      simp only [predicted?, finite, held]
      exact .predicted x
  | some m =>
      obtain ⟨value, provenance⟩ := m
      cases provenance with
      | rule id =>
          simp only [predicted?, finite, held]
          exact .blended value x id
      | supplied | predicted | blended =>
          simp only [predicted?, finite, held]
          exact .unruled x (by simp)

/-- Every field of a blended record is merged from the record as it was and its last prediction. -/
theorem merged_blend (r : Record) (w : BlendWeights) (predictions : List (Field × Float))
    (f : Field)
    : Merged w (r.measurement? f) (lastPrediction? predictions f)
        ((r.blend w predictions).measurement? f) := by
  rw [measurement?_blend]
  cases last : lastPrediction? predictions f with
  | none =>
      simp only [Option.bind_none, Option.none_or]
      exact .unpredicted _
  | some x => exact merged_predicted? r w f (isFinite_of_lastPrediction? last)

/-- Where something was predicted of a field, blending leaves a value that no rule gave. -/
theorem exists_unruled_of_merged {held left : Option Measurement} {x : Float}
    (merged : Merged w held (some x) left)
    : ∃ m, left = some m ∧ ∀ id, m.provenance ≠ .rule id := by
  cases merged with
  | unruled predicted other => exact ⟨_, rfl, other⟩
  | blended value predicted id => exact ⟨_, rfl, by simp⟩
  | predicted predicted => exact ⟨_, rfl, by simp⟩

/-- Predictions change nothing when none of them makes anything of its field. -/
theorem blend_eq_self
    (idle : ∀ f x, lastPrediction? predictions f = some x → r.predicted? w f x = none)
    : r.blend w predictions = r := by
  apply ext_measurement?
  intro f
  rw [measurement?_blend]
  cases last : lastPrediction? predictions f with
  | none => rfl
  | some x => rw [Option.bind_some, idle f x last, Option.none_or]

/-- After one pass the same predictions change nothing any more, however they are weighed: a field
that they could fill or weigh was filled or weighed, and holds no value of a rule.
-/
theorem blend_blend (r : Record) (w w' : BlendWeights) (predictions : List (Field × Float))
    : (r.blend w predictions).blend w' predictions = r.blend w predictions := by
  apply blend_eq_self
  intro f x last
  have merged := merged_blend r w predictions f
  rw [last] at merged
  exact predicted?_eq_none_iff.mpr (Or.inr (exists_unruled_of_merged merged))

/-- Blending merges, field by field, what the record held with the last finite prediction, and is
stable: to blend once more with the same predictions changes nothing.
-/
theorem blend_isStable (r : Record) (w : BlendWeights) (predictions : List (Field × Float))
    : (r.blend w predictions).blend w predictions = r.blend w predictions
      ∧ ∀ f, ∃ predicted,
          LastPredicted predictions f predicted
          ∧ Merged w (r.measurement? f) predicted ((r.blend w predictions).measurement? f) :=
  ⟨blend_blend r w w predictions, fun f =>
    ⟨lastPrediction? predictions f, lastPredicted_lastPrediction? predictions f,
      merged_blend r w predictions f⟩⟩

end Record

end MeasureSheet
