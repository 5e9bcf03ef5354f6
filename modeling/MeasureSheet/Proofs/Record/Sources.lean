import Mathlib.Data.List.Induction
import MeasureSheet.Prediction
import MeasureSheet.Proofs.Record.Histories
import MeasureSheet.Proofs.Relation.Evaluation

/-! Where the measurements of a record come from. Of the values supplied for a field the first
finite one counts, and of the predictions for it the last finite one.
-/

namespace MeasureSheet

-- -----------------------------------------------------------------------------------------------
-- Supplied values

/-- The first finite value among those given for a field, under whichever of its names. -/
def suppliedValue? (known : List (String × Option Float)) (f : Field) : Option Float :=
  known.findSome? fun p => if Field.named p.1 = f then p.2.bind finite? else none

theorem isFinite_of_suppliedValue? {known : List (String × Option Float)} {f : Field} {x : Float}
    (supplied : suppliedValue? known f = some x)
    : x.isFinite := by
  obtain ⟨p, -, counts⟩ := List.exists_of_findSome?_eq_some supplied
  split at counts
  · obtain ⟨y, -, kept⟩ := Option.bind_eq_some_iff.mp counts
    exact isFinite_of_finite? kept
  · cases counts

theorem suppliedValue?_append_singleton (known : List (String × Option Float))
    (p : String × Option Float) (f : Field)
    : suppliedValue? (known ++ [p]) f
      = (suppliedValue? known f).or (if Field.named p.1 = f then p.2.bind finite? else none) := by
  simp only [suppliedValue?, List.findSome?_append, List.findSome?_singleton]

/-- No finite value is given for a field under any of its names. -/
def Ungiven (known : List (String × Option Float)) (f : Field) : Prop :=
  ∀ p ∈ known, Field.named p.1 = f → ∀ x, p.2 = some x → x.isFinite = false

/-- The value is the first finite one that is given for a field, and missing when there is none. -/
inductive FirstGiven (known : List (String × Option Float)) (f : Field) : Option Float → Prop where
  | given {before after : List (String × Option Float)} {name : String} {x : Float}
    (listed : known = before ++ (name, some x) :: after)
    (named : Field.named name = f)
    (finite : x.isFinite)
    (first : Ungiven before f)
    : FirstGiven known f (some x)
  | missing (ungiven : Ungiven known f) : FirstGiven known f none

/-- An entry gives a field nothing when it is for another one or no finite value. -/
theorem ungiven_iff {known : List (String × Option Float)} {f : Field}
    : Ungiven known f
      ↔ ∀ p ∈ known, (if Field.named p.1 = f then p.2.bind finite? else none) = none := by
  refine forall₂_congr fun p _ => ?_
  by_cases named : Field.named p.1 = f
  · simp [named, finite?]
  · simp [named]

theorem firstGiven_suppliedValue? (known : List (String × Option Float)) (f : Field)
    : FirstGiven known f (suppliedValue? known f) := by
  cases supplied : suppliedValue? known f with
  | none => exact .missing (ungiven_iff.mpr (List.findSome?_eq_none_iff.mp supplied))
  | some x =>
      obtain ⟨before, ⟨name, value⟩, after, listed, counts, first⟩ :=
        List.findSome?_eq_some_iff.mp supplied
      split at counts
      next named =>
        obtain ⟨y, rfl, kept⟩ := Option.bind_eq_some_iff.mp counts
        obtain ⟨finite, rfl⟩ := finite?_eq_some_iff.mp kept
        exact .given listed named finite (ungiven_iff.mpr first)
      next => cases counts

namespace Record

theorem ofKnown_append_singleton (known : List (String × Option Float))
    (p : String × Option Float)
    : ofKnown (known ++ [p])
      = (p.2.bind finite?).elim (ofKnown known) fun value =>
          (ofKnown known).store (.named p.1) { value, provenance := .supplied } := by
  rw [ofKnown, List.foldl_append, List.foldl_cons, List.foldl_nil, ← ofKnown]
  cases p.2.bind finite? <;> rfl

/-- A record of supplied values holds them and nothing else, by induction from the last one. -/
theorem measurement?_ofKnown (known : List (String × Option Float)) (f : Field)
    : (ofKnown known).measurement? f
      = (suppliedValue? known f).map fun value => { value, provenance := .supplied } := by
  induction known using List.reverseRecOn generalizing f with
  | nil => rfl
  | append_singleton known p ih =>
      have supplied (g : Field)
          : (ofKnown known).isSupplied g = (suppliedValue? known g).isSome := by
        rw [isSupplied, ih]
        cases suppliedValue? known g <;> rfl
      rw [suppliedValue?_append_singleton, ofKnown_append_singleton]
      cases given : p.2.bind finite? with
      | none => simp [ih]
      | some value =>
          simp only [Option.elim_some, measurement?_store, supplied, ih]
          by_cases named : Field.named p.1 = f
          · subst named
            cases earlier : suppliedValue? known (.named p.1) <;> simp
          · simp [named, Ne.symm named]

end Record

-- -----------------------------------------------------------------------------------------------
-- Predictions

/-- The last finite value predicted for a field. -/
def lastPrediction? (predictions : List (Field × Float)) (f : Field) : Option Float :=
  predictions.reverse.findSome? fun p => if p.1 = f then finite? p.2 else none

theorem isFinite_of_lastPrediction? {predictions : List (Field × Float)} {f : Field} {x : Float}
    (last : lastPrediction? predictions f = some x)
    : x.isFinite := by
  obtain ⟨p, -, counts⟩ := List.exists_of_findSome?_eq_some last
  split at counts
  · exact isFinite_of_finite? counts
  · cases counts

theorem lastPrediction?_append_singleton (predictions : List (Field × Float)) (p : Field × Float)
    (f : Field)
    : lastPrediction? (predictions ++ [p]) f
      = (if p.1 = f then finite? p.2 else none).or (lastPrediction? predictions f) := by
  simp only [lastPrediction?, List.reverse_append, List.findSome?_append, List.reverse_singleton,
    List.findSome?_singleton]

/-- No finite value is predicted for a field. -/
def Unpredicted (predictions : List (Field × Float)) (f : Field) : Prop :=
  ∀ p ∈ predictions, p.1 = f → p.2.isFinite = false

/-- The value is the last finite one that is predicted for a field, and missing when none is. -/
inductive LastPredicted (predictions : List (Field × Float)) (f : Field) : Option Float → Prop where
  | predicted {before after : List (Field × Float)} {x : Float}
    (listed : predictions = before ++ (f, x) :: after)
    (finite : x.isFinite)
    (last : Unpredicted after f)
    : LastPredicted predictions f (some x)
  | missing (unpredicted : Unpredicted predictions f) : LastPredicted predictions f none

/-- An entry predicts nothing of a field when it is for another one or not finite. -/
theorem unpredicted_iff {predictions : List (Field × Float)} {f : Field}
    : Unpredicted predictions f
      ↔ ∀ p ∈ predictions, (if p.1 = f then finite? p.2 else none) = none := by
  refine forall₂_congr fun p _ => ?_
  by_cases same : p.1 = f
  · simp [same, finite?]
  · simp [same]

theorem lastPredicted_lastPrediction? (predictions : List (Field × Float)) (f : Field)
    : LastPredicted predictions f (lastPrediction? predictions f) := by
  cases last : lastPrediction? predictions f with
  | none =>
      have nothing := List.findSome?_eq_none_iff.mp last
      exact .missing (unpredicted_iff.mpr fun p member => nothing p (List.mem_reverse.mpr member))
  | some x =>
      obtain ⟨after, ⟨g, y⟩, before, listed, counts, later⟩ := List.findSome?_eq_some_iff.mp last
      split at counts
      next same =>
        obtain ⟨finite, rfl⟩ := finite?_eq_some_iff.mp counts
        obtain rfl : g = f := same
        have split : predictions = before.reverse ++ (g, y) :: after.reverse := by
          rw [← List.reverse_reverse predictions, listed, List.reverse_append, List.reverse_cons,
            List.append_assoc, List.singleton_append]
        exact .predicted split finite
          (unpredicted_iff.mpr fun p member => later p (List.mem_reverse.mp member))
      next => cases counts

namespace Record

variable {r : Record} {w : BlendWeights} {f : Field} {x : Float} {m : Measurement}

/-- A prediction makes nothing when it is not finite, or of a field that is known but not ruled. -/
theorem predicted?_eq_none_iff
    : r.predicted? w f x = none
      ↔ x.isFinite = false ∨ ∃ m, r.measurement? f = some m ∧ ∀ id, m.provenance ≠ .rule id := by
  unfold predicted?
  by_cases finite : x.isFinite
  · cases found : r.measurement? f with
    | none => simp [finite]
    | some m =>
        obtain ⟨value, provenance⟩ := m
        cases provenance <;> simp [finite]
  · simp [finite]

/-- A prediction makes no supplied measurement, and it makes nothing of one. -/
theorem provenance_of_predicted? (makes : r.predicted? w f x = some m)
    : m.provenance ≠ .supplied ∧ r.isSupplied f = false := by
  unfold predicted? at makes
  split at makes
  · cases makes
  · split at makes
    next unknown =>
      cases makes
      exact ⟨by simp, by simp [isSupplied, unknown]⟩
    next derived =>
      cases makes
      exact ⟨by simp, by simp [isSupplied, derived]⟩
    next => cases makes

theorem blend_append_singleton (r : Record) (w : BlendWeights) (predictions : List (Field × Float))
    (p : Field × Float)
    : r.blend w (predictions ++ [p])
      = (r.predicted? w p.1 p.2).elim (r.blend w predictions) fun m =>
          (r.blend w predictions).store p.1 m := by
  rw [blend, List.foldl_append, List.foldl_cons, List.foldl_nil, ← blend]
  cases r.predicted? w p.1 p.2 <;> rfl

/-- A blended record holds what the last finite prediction of a field makes of the record as it was,
or else what that record holds, by induction from the last prediction.
-/
theorem measurement?_blend (r : Record) (w : BlendWeights) (predictions : List (Field × Float))
    (f : Field)
    : (r.blend w predictions).measurement? f
      = ((lastPrediction? predictions f).bind (r.predicted? w f)).or (r.measurement? f) := by
  induction predictions using List.reverseRecOn generalizing f with
  | nil => simp [blend, lastPrediction?]
  | append_singleton predictions p ih =>
      obtain ⟨g, x⟩ := p
      rw [lastPrediction?_append_singleton, blend_append_singleton]
      cases makes : r.predicted? w g x with
      | none =>
          rw [Option.elim_none, ih]
          by_cases same : g = f
          · subst same
            rcases predicted?_eq_none_iff.mp makes with infinite | unruled
            · simp [finite?, infinite]
            · have nothing (last : Option Float) : last.bind (r.predicted? w g) = none :=
                Option.bind_eq_none_iff.mpr fun y _ => predicted?_eq_none_iff.mpr (Or.inr unruled)
              rw [nothing, if_pos rfl, nothing]
          · simp [same]
      | some m =>
          obtain ⟨-, free⟩ := provenance_of_predicted? makes
          have finite : x.isFinite := by
            by_contra infinite
            rw [predicted?_eq_none_iff.mpr (Or.inl (by simpa using infinite))] at makes
            cases makes
          -- What earlier predictions made of the field was not supplied either.
          have stillFree : (r.blend w predictions).isSupplied g = false := by
            rw [isSupplied, ih]
            cases earlier : (lastPrediction? predictions g).bind (r.predicted? w g) with
            | none => simpa [isSupplied] using free
            | some m' =>
                obtain ⟨y, -, made⟩ := Option.bind_eq_some_iff.mp earlier
                simp [(provenance_of_predicted? made).1]
          rw [Option.elim_some, measurement?_store, ih]
          by_cases same : g = f
          · subst same
            simp [stillFree, finite?, finite, makes]
          · simp [same, Ne.symm same]

end Record

end MeasureSheet
