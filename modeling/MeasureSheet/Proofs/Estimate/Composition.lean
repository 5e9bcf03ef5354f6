import MeasureSheet.Estimate
import MeasureSheet.Proofs.Inference.Explanation
import MeasureSheet.Proofs.Record.Rounding
import MeasureSheet.Proofs.Record.Sources

/-! What an estimate is composed of. Each of its fields is settled by what was supplied for it, what
the rules derived from supplied values alone and what the predictor said last, in this order of
rank.
-/

namespace MeasureSheet

-- -----------------------------------------------------------------------------------------------
-- Inference from supplied values

/-- A visit leaves a field as it was or fills it by a rule. -/
theorem Inference.measurement?_visit_cases (t : RuleTable) (i : Inference) (target f : Field)
    : (i.visit t target).record.measurement? f = i.record.measurement? f
      ∨ ∃ value id,
          (i.visit t target).record.measurement? f = some { value, provenance := .rule id } := by
  rw [RuleTable.measurement?_visit]
  split
  next filled =>
    obtain ⟨rfl, unknown⟩ := filled
    cases applied : firstApplicable? i.record.value? (t.candidates f) with
    | none =>
        left
        simp [answer?, applied, Record.isKnown_eq_false_iff.mp unknown]
    | some p => exact Or.inr ⟨p.2, p.1, by simp [answer?, applied]⟩
  next => exact Or.inl rfl

/-- Inference leaves a field as it was or fills it by a rule, by induction on the targets. -/
theorem RuleTable.measurement?_infer_cases (t : RuleTable) (r : Record) (f : Field)
    : (t.infer r).measurement? f = r.measurement? f
      ∨ ∃ value id, (t.infer r).measurement? f = some { value, provenance := .rule id } := by
  have general (targets : List Field) (i : Inference)
      : (targets.foldl (Inference.visit t) i).record.measurement? f = i.record.measurement? f
        ∨ ∃ value id,
            (targets.foldl (Inference.visit t) i).record.measurement? f
            = some { value, provenance := .rule id } := by
    induction targets generalizing i with
    | nil => exact Or.inl rfl
    | cons target rest ih =>
        rcases ih (i.visit t target) with same | filled
        · rw [List.foldl_cons, same]
          exact i.measurement?_visit_cases t target f
        · exact Or.inr filled
  exact general t.order (Inference.start r)

/-- Over supplied values inference keeps those and adds what rules derive. -/
theorem measurement?_infer_ofKnown (t : RuleTable) (known : List (String × Option Float))
    (f : Field)
    : (∃ value,
        suppliedValue? known f = some value
        ∧ (t.infer (.ofKnown known)).measurement? f = some { value, provenance := .supplied })
      ∨ suppliedValue? known f = none
        ∧ ((t.infer (.ofKnown known)).measurement? f = none
          ∨ ∃ value id,
              (t.infer (.ofKnown known)).measurement? f
              = some { value, provenance := .rule id }) := by
  have given := Record.measurement?_ofKnown known f
  cases supplied : suppliedValue? known f with
  | some value =>
      rw [supplied] at given
      exact Or.inl ⟨value, rfl, (Record.keptBy_infer t _).supplied f _ given rfl⟩
  | none =>
      rw [supplied] at given
      right
      rcases t.measurement?_infer_cases (.ofKnown known) f with same | filled
      · exact ⟨rfl, Or.inl (same.trans given)⟩
      · exact ⟨rfl, Or.inr filled⟩

/-- Derived values are no features: a predictor sees the supplied values of its inputs. -/
theorem features_infer_ofKnown (t : RuleTable) (known : List (String × Option Float))
    (inputs : List Field)
    : (t.infer (.ofKnown known)).features inputs = inputs.map (suppliedValue? known) := by
  apply List.map_congr_left
  intro f _
  rcases measurement?_infer_ofKnown t known f with ⟨value, supplied, found⟩ | ⟨absent, found⟩
  · simp [Record.isSupplied, Record.value?, found, supplied]
  · rcases found with none | ⟨value, id, derived⟩
    · simp [Record.isSupplied, none, absent]
    · simp [Record.isSupplied, derived, absent]

-- -----------------------------------------------------------------------------------------------
-- Combination

/-- The value as the settings have it rounded. -/
def Settings.roundedValue (s : Settings) (x : Float) : Float :=
  match s.roundTo with
  | some places => Record.roundValue places.toNat x
  | none => x

/-- One value is another one as the settings have it rounded: to their decimal places, or not at all
when they name none.
-/
inductive Settings.Rounds (s : Settings) (x : Float) : Float → Prop where
  | kept (unrounded : s.roundTo = none) : s.Rounds x x
  | rounded {places : UInt32} {y : Float} (chosen : s.roundTo = some places)
    (rounding : Record.IsRounding places.toNat x y)
    : s.Rounds x y

theorem Settings.rounds_iff {s : Settings} {x y : Float}
    : s.Rounds x y ↔ s.roundedValue x = y := by
  unfold roundedValue
  constructor
  · rintro (unrounded | ⟨chosen, rounding⟩)
    · rw [unrounded]
    · rw [chosen]
      exact Record.isRounding_iff.mp rounding
  · rintro rfl
    cases chosen : s.roundTo with
    | none => exact .kept chosen
    | some places => exact .rounded chosen (Record.isRounding_iff.mpr rfl)

theorem Settings.measurement?_combine (s : Settings) (r : Record)
    (predictions : List (Field × Float)) (f : Field)
    : (s.combine r predictions).measurement? f
      = ((r.blend s.weights predictions).measurement? f).map fun m =>
          if m.provenance = .supplied then m else { m with value := s.roundedValue m.value } := by
  unfold combine roundedValue
  cases s.roundTo with
  | some places => exact Record.measurement?_rounded _ _ f
  | none => simp

/-- Blending and rounding keep what was supplied and what is known. -/
theorem Settings.keptBy_combine (s : Settings) (r : Record) (predictions : List (Field × Float))
    : r.KeptBy (s.combine r predictions) := by
  have blended := r.keptBy_blend s.weights predictions
  unfold combine
  cases s.roundTo with
  | some places => exact blended.trans (Record.keptBy_rounded _ places.toNat)
  | none => exact blended

/-- What an estimate holds for a field, given the value supplied for it, the measurement that
inference left and the last finite prediction: a supplied value as it is; a prediction weighed
against the value of a rule; a prediction or a rule's value alone; or nothing. All but supplied
values are rounded.
-/
inductive Settled (s : Settings)
    : (supplied : Option Float)
      → (inferred : Option Measurement)
      → (predicted : Option Float)
      → Option Measurement
      → Prop where
  | supplied (value : Float) (inferred : Option Measurement) (predicted : Option Float)
    : Settled s (some value) inferred predicted (some { value, provenance := .supplied })
  | blended {x derived predicted : Float} (id : RuleId)
    (rounds : s.Rounds (s.weights.model * predicted + s.weights.rule * derived) x)
    : Settled s none (some { value := derived, provenance := .rule id }) (some predicted)
        (some { value := x, provenance := .blended id })
  | predicted {x predicted : Float} (rounds : s.Rounds predicted x)
    : Settled s none none (some predicted) (some { value := x, provenance := .predicted })
  | derived {x derived : Float} (id : RuleId) (rounds : s.Rounds derived x)
    : Settled s none (some { value := derived, provenance := .rule id }) none
        (some { value := x, provenance := .rule id })
  | unknown : Settled s none none none none

/-- The combination of an inference from supplied values with predictions settles every field. -/
theorem Settings.settled_combine (s : Settings) (t : RuleTable)
    (known : List (String × Option Float)) (predictions : List (Field × Float)) (f : Field)
    : Settled s (suppliedValue? known f) ((t.infer (.ofKnown known)).measurement? f)
        (lastPrediction? predictions f)
        ((s.combine (t.infer (.ofKnown known)) predictions).measurement? f) := by
  rw [measurement?_combine, Record.measurement?_blend]
  have finite (x : Float) (last : lastPrediction? predictions f = some x) : x.isFinite :=
    isFinite_of_lastPrediction? last
  rcases measurement?_infer_ofKnown t known f with ⟨value, supplied, found⟩ | ⟨absent, found⟩
  · have ignored : (lastPrediction? predictions f).bind
        ((t.infer (.ofKnown known)).predicted? s.weights f) = none :=
      Option.bind_eq_none_iff.mpr fun x _ =>
        Record.predicted?_eq_none_iff.mpr (Or.inr ⟨_, found, by simp⟩)
    rw [ignored, supplied, found]
    exact .supplied value _ _
  · rw [absent]
    cases last : lastPrediction? predictions f with
    | none =>
        rcases found with none | ⟨value, id, derived⟩
        · rw [none]
          exact .unknown
        · rw [derived]
          exact .derived id (Settings.rounds_iff.mpr rfl)
    | some x =>
        rcases found with none | ⟨value, id, derived⟩
        · simp only [Option.bind_some, Record.predicted?, finite x last, none]
          exact .predicted (Settings.rounds_iff.mpr rfl)
        · simp only [Option.bind_some, Record.predicted?, finite x last, derived]
          exact .blended id (Settings.rounds_iff.mpr rfl)

-- -----------------------------------------------------------------------------------------------
-- Estimates

/-- An estimate asks the predictor once, with supplied values, and combines what it answers. -/
theorem estimate_eq (t : RuleTable) (p : Predictor) (s : Settings)
    (known : List (String × Option Float))
    : estimate t p s known
      = (p.predict (p.inputs.map (suppliedValue? known))).bind fun values =>
          if values.length = p.targets.length then
            .ok (s.conclude (t.inference (.ofKnown known)) (p.targets.zip values))
          else .error (.wrongCount p.targets.length values.length) := by
  have features := features_infer_ofKnown t known p.inputs
  simp only [RuleTable.infer] at features
  simp only [estimate, estimateRun, Predictor.predictions, features]
  cases p.predict (p.inputs.map (suppliedValue? known)) with
  | error failure => rfl
  | ok values =>
      by_cases count : values.length = p.targets.length
      · simp [bind, Except.bind, pure, Except.pure, Except.map, count]
      · simp [bind, Except.bind, Except.map, count]

/-- An estimate succeeds exactly when the predictor answers as many values as it has targets. -/
theorem estimate_eq_ok_iff {t : RuleTable} {p : Predictor} {s : Settings}
    {known : List (String × Option Float)} {e : Estimate}
    : estimate t p s known = .ok e
      ↔ ∃ values,
          p.predict (p.inputs.map (suppliedValue? known)) = .ok values
          ∧ values.length = p.targets.length
          ∧ s.conclude (t.inference (.ofKnown known)) (p.targets.zip values) = e := by
  rw [estimate_eq]
  cases p.predict (p.inputs.map (suppliedValue? known)) with
  | error failure => simp [Except.bind]
  | ok values => by_cases count : values.length = p.targets.length <;> simp [Except.bind, count]

/-- An estimate fails as the predictor fails, or because of the number of values that it answers,
and otherwise settles every field from supplied values, inference over these alone and predictions.
-/
theorem estimate_settles (t : RuleTable) (p : Predictor) (s : Settings)
    (known : List (String × Option Float))
    : (∀ failure,
        p.predict (p.inputs.map (suppliedValue? known)) = .error failure
        → estimate t p s known = .error failure)
      ∧ ∀ values,
          p.predict (p.inputs.map (suppliedValue? known)) = .ok values
          → (values.length ≠ p.targets.length
              → estimate t p s known = .error (.wrongCount p.targets.length values.length))
            ∧ (values.length = p.targets.length
              → ∃ e,
                  estimate t p s known = .ok e
                  ∧ ∀ f,
                      Settled s (suppliedValue? known f)
                        ((t.infer (.ofKnown known)).measurement? f)
                        (lastPrediction? (p.targets.zip values) f) (e.record.measurement? f)) := by
  rw [estimate_eq]
  refine ⟨fun failure answer => by rw [answer]; rfl, fun values answer => ?_⟩
  rw [answer]
  constructor
  · intro wrong
    simp [Except.bind, wrong]
  · intro count
    refine ⟨s.conclude (t.inference (.ofKnown known)) (p.targets.zip values), ?_, fun f => ?_⟩
    · simp [Except.bind, count]
    · exact s.settled_combine t known (p.targets.zip values) f

/-- A predictor with a target given twice, whose last value for it is infinite. -/
def figurePredictor : Predictor where
  inputs := [.named "waist", .named "hip"]
  targets := [.named "waist", .named "hip", .named "calf", .named "hip"]
  predict _ := .ok [100.0, 110.0, 36.25, 1.0 / 0.0]

/-- The hip is blended, the thigh stays what follows from the hip before that, and the calf is
rounded away from zero.
-/
theorem figure_estimate_settles
    : let t := RuleTable.figureTable [.named "hip", .named "thigh", .named "calf"]
      let known := [("Waist ", some 70.0), ("waist", some 90.0), ("belt", some 0.0)]
      ∃ e,
        estimate t figurePredictor {} known = .ok e
        ∧ (∀ f,
            Settled {} (suppliedValue? known f) ((t.infer (.ofKnown known)).measurement? f)
              (lastPrediction? (figurePredictor.targets.zip [100.0, 110.0, 36.25, 1.0 / 0.0]) f)
              (e.record.measurement? f))
        ∧ e.record.measurement? (.named "hip")
          = some { value := 109.0, provenance := .blended (.ofRow 1) }
        ∧ e.record.measurement? (.named "thigh")
          = some { value := 65.0, provenance := .rule (.ofRow 2) }
        ∧ e.record.measurement? (.named "calf")
          = some { value := 36.3, provenance := .predicted } := by
  intro t known
  obtain ⟨-, answered⟩ := estimate_settles t figurePredictor {} known
  obtain ⟨-, counted⟩ := answered [100.0, 110.0, 36.25, 1.0 / 0.0] rfl
  obtain ⟨e, succeeds, settled⟩ := counted rfl
  have measured
      : (estimate t figurePredictor {} known).toOption.map (fun e =>
          [Field.named "hip", .named "thigh", .named "calf"].map e.record.measurement?)
        = some [
            some { value := 109.0, provenance := .blended (.ofRow 1) },
            some { value := 65.0, provenance := .rule (.ofRow 2) },
            some { value := 36.3, provenance := .predicted }
          ] := by
    decide +kernel
  rw [succeeds] at measured
  simp only [Except.toOption, Option.map_some, List.map_cons, List.map_nil, Option.some.injEq,
    List.cons.injEq, and_true] at measured
  exact ⟨e, succeeds, settled, measured⟩

end MeasureSheet
