import MeasureSheet.Proofs.Binary64.Bounds
import MeasureSheet.Proofs.Compilation.Stages
import MeasureSheet.Proofs.Estimate.Composition
import MeasureSheet.Proofs.Format.Records
import MeasureSheet.Proofs.Record.Rounding

/-! Finite values in estimates. What is supplied, derived or predicted counts only when it is
finite, but a value that is weighted and scaled after that can still leave the range of floats.
-/

namespace MeasureSheet

open Binary64

-- -----------------------------------------------------------------------------------------------
-- Finite records

/-- Every value of the record is finite. -/
def Record.AllFinite (r : Record) : Prop :=
  ∀ f m, r.measurement? f = some m → m.value.isFinite

theorem Record.allFinite_iff_entries {r : Record}
    : r.AllFinite ↔ ∀ q ∈ r.entries.entries, q.2.value.isFinite :=
  ⟨fun finite q entry => finite q.1 q.2 (FieldMap.find?_eq_some_iff.mpr entry),
    fun finite f m found => finite (f, m) (FieldMap.find?_eq_some_iff.mp found)⟩

instance (r : Record) : Decidable r.AllFinite :=
  decidable_of_iff' _ Record.allFinite_iff_entries

theorem isFinite_of_firstApplicable? {known : Field → Option Float} {candidates : List Rule}
    {id : RuleId} {x : Float} (first : firstApplicable? known candidates = some (id, x))
    : x.isFinite := by
  obtain ⟨r, -, applied⟩ := List.exists_of_findSome?_eq_some first
  obtain ⟨y, follows, same⟩ := Option.map_eq_some_iff.mp applied
  exact (Prod.mk.inj same).2 ▸ r.relation.isFinite_of_evaluate follows

namespace Record.AllFinite

variable {r : Record}

theorem ofKnown (known : List (String × Option Float)) : (Record.ofKnown known).AllFinite := by
  intro f m found
  rw [measurement?_ofKnown] at found
  obtain ⟨x, supplied, rfl⟩ := Option.map_eq_some_iff.mp found
  exact isFinite_of_suppliedValue? supplied

theorem store (finite : r.AllFinite) (f : Field) {m : Measurement} (value : m.value.isFinite)
    : (r.store f m).AllFinite := by
  intro g m' found
  rw [measurement?_store] at found
  split at found
  · exact Option.some.inj found ▸ value
  · exact finite g m' found

theorem visit {t : RuleTable} {i : Inference} (finite : i.record.AllFinite) (target : Field)
    : (i.visit t target).record.AllFinite := by
  unfold Inference.visit
  split
  · exact finite
  · split
    next first => exact finite.store target (isFinite_of_firstApplicable? first)
    next => exact finite

/-- Inference adds finite values only, by induction on the targets. -/
theorem infer (finite : r.AllFinite) (t : RuleTable) : (t.infer r).AllFinite := by
  have general (targets : List Field) (i : Inference) (finite : i.record.AllFinite)
      : (targets.foldl (Inference.visit t) i).record.AllFinite := by
    induction targets generalizing i with
    | nil => exact finite
    | cons target rest ih => exact ih (i.visit t target) (finite.visit target)
  exact general t.order (Inference.start r) finite

/-- A record that is read back from its own document holds no other values. -/
theorem of_ofJson_document (back : Record.ofJson r.toJson.document = .ok r) : r.AllFinite := by
  refine allFinite_iff_entries.mpr fun q entry => ?_
  have member : q.2.value ∈ r.numbers := List.mem_map_of_mem (List.mem_map_of_mem entry)
  exact (Json.readsBack_iff.mp (ofJson_document_iff.mp back _ member)).1.finite

end Record.AllFinite

-- -----------------------------------------------------------------------------------------------
-- Values that are scaled

namespace Settings

/-- The value as the settings have it scaled, on the way to its rounding. -/
def scaledValue (s : Settings) (x : Float) : Float :=
  match s.roundTo with
  | some places => x * Record.scale places.toNat
  | none => x

/-- No value of the record that was not supplied becomes infinite when it is scaled. -/
def KeepsFinite (s : Settings) (r : Record) : Prop :=
  ∀ f m,
    r.measurement? f = some m → m.provenance ≠ .supplied → (s.scaledValue m.value).isFinite

theorem isFinite_roundedValue (s : Settings) (x : Float)
    : (s.roundedValue x).isFinite = (s.scaledValue x).isFinite := by
  unfold roundedValue scaledValue
  cases s.roundTo with
  | some places => exact Record.isFinite_roundValue places.toNat x
  | none => rfl

/-- Supplied values are neither blended nor rounded, and all others stay finite or not as scaled. -/
theorem allFinite_combine_iff {s : Settings} {r : Record} {predictions : List (Field × Float)}
    (finite : r.AllFinite)
    : (s.combine r predictions).AllFinite ↔ s.KeepsFinite (r.blend s.weights predictions) := by
  constructor
  · intro kept f m found derived
    have rounded := kept f { m with value := s.roundedValue m.value }
      (by rw [measurement?_combine, found, Option.map_some, if_neg derived])
    rwa [isFinite_roundedValue] at rounded
  · intro kept f m found
    rw [measurement?_combine] at found
    obtain ⟨m', blended, rfl⟩ := Option.map_eq_some_iff.mp found
    split
    next supplied =>
      rw [Record.measurement?_blend, Option.or_eq_some_iff] at blended
      rcases blended with made | ⟨-, held⟩
      · obtain ⟨x, -, made⟩ := Option.bind_eq_some_iff.mp made
        exact absurd supplied (Record.provenance_of_predicted? made).1
      · exact finite f m' held
    next derived =>
      rw [isFinite_roundedValue]
      exact kept f m' blended derived

end Settings

-- -----------------------------------------------------------------------------------------------
-- Moderate values

/-- Valid weights are at most two, as their sum is. -/
theorem BlendWeights.within_of_isValid {w : BlendWeights} (valid : w.isValid)
    : Within w.model 1 ∧ Within w.rule 1 := by
  simp only [isValid, Bool.and_eq_true, decide_eq_true_eq] at valid
  obtain ⟨⟨⟨⟨finite, finite'⟩, nonneg⟩, nonneg'⟩, near⟩ := valid
  have unpacked
      : tolerance.toModel.unpack = .finite .positive 4835703278458517 (-82) (by decide) := rfl
  have tolerated := denotes_of_unpack unpacked
  have below : withSign .positive ((4835703278458517 : Nat) * 2 ^ (-82 : Int)) < 1 := by
    norm_num [withSign]
  obtain ⟨a, model⟩ := isFinite_iff.mp finite
  obtain ⟨b, rule⟩ := isFinite_iff.mp finite'
  have zero : Denotes 0.0 0 := rfl
  have nonneg := zero.le model nonneg
  have nonneg' := zero.le rule nonneg'
  have difference := isFinite_of_abs_le near tolerated
  obtain ⟨sum, total⟩ := isFinite_iff.mp (isFinite_of_sub denotes_one difference)
  obtain ⟨rest, remainder⟩ := isFinite_iff.mp difference
  -- A sum of two or more would be rounded to two or more, and so be one or more beyond one.
  have less : a + b < 2 := by
    by_contra large
    have two := ((model.add rule).faithful total).below 2 (representable_natCast (by decide))
      (not_lt.mp large)
    have one := ((total.sub denotes_one).faithful remainder).below 1
      (representable_natCast (by decide)) (by linarith)
    have bound := remainder.abs.le tolerated near
    linarith [le_abs_self rest]
  constructor
  · exact ⟨a, model, by rw [abs_of_nonneg nonneg]; linarith⟩
  · exact ⟨b, rule, by rw [abs_of_nonneg nonneg']; linarith⟩

theorem Record.within_scale (places : Nat) : Within (scale places) 50 := by
  refine ⟨_, denotes_scale places, ?_⟩
  rw [abs_of_nonneg (by positivity)]
  have le : 10 ^ min places 15 ≤ 2 ^ 50 :=
    (Nat.pow_le_pow_right (by decide) (min_le_right places 15)).trans (by decide)
  exact_mod_cast le

/-- The bound leaves room below the greatest float for weights and for fifteen decimal places. -/
theorem within_of_abs_le {x : Float} (le : x.abs ≤ 1e292) : Within x 971 := by
  have bits : (1e292 : Float) = .ofBits 0x7c9008896bcf54fa := by decide +kernel
  have unpacked
      : (Float.ofBits 0x7c9008896bcf54fa).toModel.unpack
        = .finite .positive 4512985939662074 918 (by decide) := rfl
  rw [bits] at le
  refine .of_abs_le le (denotes_of_unpack unpacked) ?_
  have small : ((4512985939662074 : Nat) : ℚ) ≤ 2 ^ 53 := by norm_num
  calc ((4512985939662074 : Nat) : ℚ) * 2 ^ (918 : Int)
    _ ≤ 2 ^ 53 * 2 ^ (918 : Int) := by gcongr
    _ = 2 ^ 971 := (pow_add 2 53 918).symm

/-- Derived and predicted values of a size that leaves room for weighting and scaling. -/
structure Moderate (r : Record) (predictions : List (Field × Float)) : Prop where
  derived
    : ∀ f m, r.measurement? f = some m → m.provenance ≠ .supplied → m.value.abs ≤ 1e292
  predicted : ∀ f x, lastPrediction? predictions f = some x → x.abs ≤ 1e292

theorem moderate_iff_entries {r : Record} {predictions : List (Field × Float)}
    : Moderate r predictions
      ↔ (∀ q ∈ r.entries.entries, q.2.provenance ≠ .supplied → q.2.value.abs ≤ 1e292)
        ∧ ∀ p ∈ predictions, ∀ x ∈ lastPrediction? predictions p.1, x.abs ≤ 1e292 := by
  constructor
  · intro ⟨derived, predicted⟩
    exact ⟨fun q entry => derived q.1 q.2 (FieldMap.find?_eq_some_iff.mpr entry),
      fun p _ x last => predicted p.1 x last⟩
  · intro ⟨derived, predicted⟩
    refine ⟨fun f m found => derived (f, m) (FieldMap.find?_eq_some_iff.mp found), ?_⟩
    intro f x last
    obtain ⟨p, member, counts⟩ := List.exists_of_findSome?_eq_some last
    split at counts
    next same => exact predicted p (List.mem_reverse.mp member) x (same ▸ last)
    next => cases counts

instance (r : Record) (predictions : List (Field × Float)) : Decidable (Moderate r predictions) :=
  decidable_of_iff' _ moderate_iff_entries

/-- What is blended from moderate values can be scaled without becoming infinite. -/
theorem Moderate.within_blend {r : Record} {predictions : List (Field × Float)} {w : BlendWeights}
    {f : Field} {m : Measurement} (moderate : Moderate r predictions) (valid : w.isValid)
    (found : (r.blend w predictions).measurement? f = some m) (derived : m.provenance ≠ .supplied)
    : Within m.value 973 := by
  obtain ⟨model, rule⟩ := BlendWeights.within_of_isValid valid
  rw [Record.measurement?_blend, Option.or_eq_some_iff] at found
  rcases found with made | ⟨-, held⟩
  · obtain ⟨x, last, made⟩ := Option.bind_eq_some_iff.mp made
    have prediction := within_of_abs_le (moderate.predicted f x last)
    unfold Record.predicted? at made
    split at made
    · cases made
    split at made
    · cases made
      exact prediction.mono (by decide)
    next value id held =>
      cases made
      have estimate := within_of_abs_le (moderate.derived f _ held (by simp))
      exact (model.mul prediction (by decide)).add (rule.mul estimate (by decide)) (by decide)
    · cases made
  · exact (within_of_abs_le (moderate.derived f m held derived)).mono (by decide)

theorem Moderate.keepsFinite {r : Record} {predictions : List (Field × Float)} {s : Settings}
    (moderate : Moderate r predictions) (valid : s.weights.isValid)
    : s.KeepsFinite (r.blend s.weights predictions) := by
  intro f m found derived
  have within := moderate.within_blend valid found derived
  unfold Settings.scaledValue
  cases s.roundTo with
  | some places => exact (within.mul (Record.within_scale places.toNat) (by decide)).isFinite
  | none => exact within.isFinite

-- -----------------------------------------------------------------------------------------------
-- Estimates

theorem Settings.isValid_of_check {s : Settings} (accepted : s.check = .ok ())
    : s.weights.isValid := by
  by_contra invalid
  simp [check, BlendWeights.check, invalid] at accepted

/-- The rules leave finite values only, and an estimate holds finite values only if and only if no
value that was not supplied becomes infinite by weighting or scaling. None does so when the values
that were derived and predicted are moderate, and no record with one that did is read back.
-/
theorem estimate_allFinite_iff {t : RuleTable} {p : Predictor} {s : Settings}
    {known : List (String × Option Float)} {e : Estimate} (accepted : s.check = .ok ())
    (estimated : estimate t p s known = .ok e)
    : ∃ values,
        p.predict (p.inputs.map (suppliedValue? known)) = .ok values
        ∧ let inferred := t.infer (.ofKnown known)
          let predictions := p.targets.zip values
          inferred.AllFinite
          ∧ (e.record.AllFinite ↔ s.KeepsFinite (inferred.blend s.weights predictions))
          ∧ (Moderate inferred predictions → e.record.AllFinite)
          ∧ (Record.ofJson e.record.toJson.document = .ok e.record → e.record.AllFinite) := by
  rw [estimate_eq] at estimated
  cases answer : p.predict (p.inputs.map (suppliedValue? known)) with
  | error failure =>
      rw [answer] at estimated
      cases estimated
  | ok values =>
      rw [answer, Except.bind] at estimated
      split at estimated
      next =>
        cases estimated
        have finite := (Record.AllFinite.ofKnown known).infer t
        have combined := @Settings.allFinite_combine_iff s _ (p.targets.zip values) finite
        exact ⟨values, rfl, finite, combined,
          fun moderate => combined.mpr (moderate.keepsFinite (s.isValid_of_check accepted)),
          .of_ofJson_document⟩
      next => cases estimated

theorem figure_estimate_allFinite
    : let t := RuleTable.figureTable [.named "hip", .named "thigh", .named "calf"]
      ({} : Settings).check = .ok ()
      ∧ ∃ e, estimate t figurePredictor {} [("waist", some 90.0)] = .ok e ∧ e.record.AllFinite := by
  intro t
  have accepted : ({} : Settings).check = .ok () := by decide +kernel
  have moderate
      : Moderate (t.infer (.ofKnown [("waist", some 90.0)]))
          (figurePredictor.targets.zip [100.0, 110.0, 36.25, 1.0 / 0.0]) := by
    decide +kernel
  obtain ⟨e, estimated, -⟩
      : ∃ e,
          estimate t figurePredictor {} [("waist", some 90.0)] = .ok e
          ∧ decide (e.unresolved = []) :=
    exists_of_run (by decide +kernel)
  obtain ⟨values, answer, -, -, finite, -⟩ := estimate_allFinite_iff accepted estimated
  cases answer
  exact ⟨accepted, e, estimated, finite moderate⟩

/-- A row that doubles a measurement. -/
def doubledRows : List Row :=
  [{ formula := "a = b * 2", priority := 1 }]

/-- A row that repeats a measurement. -/
def repeatedRows : List Row :=
  [{ formula := "a = b * 1", priority := 1 }]

/-- A predictor that says the greatest float, whatever it is asked. -/
def greatestPredictor : Predictor where
  inputs := []
  targets := [.named "a"]
  predict _ := .ok [1.7976931348623157e308]

def silentPredictor : Predictor where
  inputs := []
  targets := []
  predict _ := .ok []

/-- Weights that add up to one as far as they have to, and no rounding. -/
def heavySettings : Settings where
  weights := { model := 0.5, rule := 0.5000000005 }
  roundTo := none

/-- Rounding alone makes a finite value infinite, and so does blending alone. -/
theorem doubledRows_repeatedRows_areNotFinite
    : (¬ ∀ (rows : List Row) (c : CompiledSheet) (s : Settings)
        (known : List (String × Option Float)) (e : Estimate),
        compile .lowestPriority rows [] = .ok c
        → s.check = .ok ()
        → estimate c.table silentPredictor s known = .ok e
        → e.record.AllFinite)
      ∧ ¬ ∀ (rows : List Row) (c : CompiledSheet) (p : Predictor) (s : Settings)
        (known : List (String × Option Float)) (e : Estimate),
        compile .lowestPriority rows [] = .ok c
        → s.check = .ok ()
        → s.roundTo = none
        → estimate c.table p s known = .ok e
        → e.record.AllFinite := by
  constructor
  · intro finite
    obtain ⟨c, compiled, run⟩ : ∃ c,
        compile .lowestPriority doubledRows [] = .ok c
        ∧ (estimate c.table silentPredictor {} [("b", some 8e307)]).toOption.any
            (fun e => decide (¬ e.record.AllFinite)) :=
      exists_of_run (by decide +kernel)
    obtain ⟨e, estimated, infinite⟩ := exists_of_run run
    exact of_decide_eq_true infinite
      (finite doubledRows c {} [("b", some 8e307)] e compiled (by decide +kernel) estimated)
  · intro finite
    obtain ⟨c, compiled, run⟩ : ∃ c,
        compile .lowestPriority repeatedRows [] = .ok c
        ∧ (estimate c.table greatestPredictor heavySettings
            [("b", some 1.7976931348623157e308)]).toOption.any
              (fun e => decide (¬ e.record.AllFinite)) :=
      exists_of_run (by decide +kernel)
    obtain ⟨e, estimated, infinite⟩ := exists_of_run run
    exact of_decide_eq_true infinite
      (finite repeatedRows c greatestPredictor heavySettings [("b", some 1.7976931348623157e308)] e
        compiled (by decide +kernel) rfl estimated)

end MeasureSheet
