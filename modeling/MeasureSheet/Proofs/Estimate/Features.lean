import MeasureSheet.Proofs.Estimate.Composition

/-! What predictors are shown. An estimate asks its predictor for one list of features, and that
list holds supplied values alone: no table, and so no value that a rule derives, plays a part in it.
-/

namespace MeasureSheet

/-- A predictor that fails for some features and predicts from all others as it did. -/
def Predictor.failingOn (p : Predictor) (features : List (Option Float))
    (failure : PredictorFailure)
    : Predictor :=
  { p with predict := fun given => if given = features then .error failure else p.predict given }

/-- An estimate shows its predictor some features and no others: what a predictor of the same
schemas would answer to others makes no difference, and a predictor that fails for these fails the
estimate.
-/
structure Shows (t : RuleTable) (p : Predictor) (s : Settings)
    (known : List (String × Option Float)) (features : List (Option Float))
    : Prop where
  alone
    : ∀ q : Predictor,
        q.inputs = p.inputs
        → q.targets = p.targets
        → q.predict features = p.predict features
        → estimate t q s known = estimate t p s known
  asked : ∀ failure, estimate t (p.failingOn features failure) s known = .error failure

section

variable {t : RuleTable} {p : Predictor} {s : Settings} {known : List (String × Option Float)}

/-- Only one list of features is shown: a failure for any other would go unnoticed. -/
theorem Shows.unique {features others : List (Option Float)} (shown : Shows t p s known features)
    (shown' : Shows t p s known others)
    : features = others := by
  by_contra different
  have unnoticed (failure : PredictorFailure) : estimate t p s known = .error failure := by
    have same : (p.failingOn others failure).predict features = p.predict features :=
      if_neg different
    exact (shown.alone (p.failingOn others failure) rfl rfl same).symm.trans (shown'.asked failure)
  have both := (unnoticed (.failed "")).symm.trans (unnoticed (.wrongCount 0 0))
  cases both

/-- The features are the supplied values of the inputs, whatever the table derives for them. -/
theorem shows_supplied : Shows t p s known (p.inputs.map (suppliedValue? known)) := by
  constructor
  · intro q inputs targets same
    rw [estimate_eq, estimate_eq, inputs, targets, same]
  · intro failure
    rw [estimate_eq]
    simp [Predictor.failingOn, Except.bind]

end

/-- Whatever the table and the settings, an estimate shows its predictor one list of features, which
has for each input the first finite value that was given for it, if there is one.
-/
theorem estimate_showsSupplied (p : Predictor) (known : List (String × Option Float))
    : ∃ features,
        features.length = p.inputs.length
        ∧ List.Forall₂ (FirstGiven known) p.inputs features
        ∧ ∀ t s shown, Shows t p s known shown ↔ shown = features := by
  refine ⟨p.inputs.map (suppliedValue? known), List.length_map _, ?_, fun t s shown => ?_⟩
  · exact List.forall₂_map_right_iff.mpr
      (List.forall₂_same.mpr fun f _ => firstGiven_suppliedValue? known f)
  · constructor
    · intro showing
      exact showing.unique shows_supplied
    · rintro rfl
      exact shows_supplied

end MeasureSheet
