import MeasureSheet.Proofs.Derivation.Wording
import MeasureSheet.Proofs.Estimate.Composition
import MeasureSheet.Proofs.Inference.Closure
import MeasureSheet.Proofs.RuleTable.Loading

/-! Where estimates come from. Over a compiled table every field of an estimate is traced down to
what was supplied and predicted: numbers of rules outlast blending and rounding, each of them stands
for one rule of the table, and what a rule was applied to stays known.
-/

namespace MeasureSheet

variable {t : RuleTable}

/-- A value that was derived from supplied ones has its rule in the table, with known inputs. -/
theorem RuleTable.Coherent.exists_rule_of_derived (coherent : t.Coherent)
    {known : List (String × Option Float)} {f : Field} {value : Float} {id : RuleId}
    (derived
      : (t.infer (.ofKnown known)).measurement? f = some { value, provenance := .rule id })
    : ∃ rule ∈ t.book.rules,
        rule.id = id
        ∧ rule.target = f
        ∧ ∀ base ∈ rule.inputs, (t.infer (.ofKnown known)).isKnown base := by
  rw [coherent.measurement?_infer, Record.measurement?_ofKnown, Option.or_eq_some_iff] at derived
  rcases derived with supplied | ⟨-, said⟩
  · obtain ⟨x, -, same⟩ := Option.map_eq_some_iff.mp supplied
    cases same
  · obtain ⟨rule, candidate, x, follows, same⟩ := exists_of_answer? said
    cases same
    obtain ⟨member, own⟩ := coherent.rule_of_candidate candidate
    refine ⟨rule, member, rfl, own, fun base input => ?_⟩
    rw [Record.isKnown_eq_isSome_value?]
    exact Relation.isSome_of_evaluate follows base input

/-- What is combined from inference over supplied values and predictions can be traced in a table
whose rules are found by their numbers: a field that a rule gave still has the number of that rule.
-/
theorem RuleTable.Coherent.traceable_combine (coherent : t.Coherent)
    (found : ∀ rule ∈ t.book.rules, t.findRule? rule.id = some rule) (s : Settings)
    (known : List (String × Option Float)) (predictions : List (Field × Float))
    : Traceable t (s.combine (t.infer (.ofKnown known)) predictions) := by
  intro f present
  obtain ⟨m, held⟩ := Option.ne_none_iff_exists'.mp (Record.isKnown_iff.mp present)
  have kept := s.keptBy_combine (t.infer (.ofKnown known)) predictions
  have founded (blended : Bool) {value : Float} {id : RuleId}
      (derived
        : (t.infer (.ofKnown known)).measurement? f = some { value, provenance := .rule id })
      : (t.ruleSource blended id).Founded t (s.combine (t.infer (.ofKnown known)) predictions)
          f := by
    obtain ⟨rule, member, rfl, own, inputs⟩ := coherent.exists_rule_of_derived derived
    rw [ruleSource, found rule member]
    exact .rule blended member own fun base input => kept.known base (inputs base input)
  have settled := s.settled_combine t known predictions f
  rw [held] at settled
  rw [source, held]
  -- How the field was settled says where it comes from; only a rule has to be looked up.
  generalize suppliedValue? known f = supplied at settled
  generalize inferred : (t.infer (.ofKnown known)).measurement? f = measured at settled
  generalize lastPrediction? predictions f = predicted at settled
  cases settled with
  | supplied => exact .supplied
  | predicted => exact .predicted
  | blended => exact founded true inferred
  | derived => exact founded false inferred

/-- Every field of an estimate over a compiled table is traced down to its sources. Its derivation
takes the field apart, and each field that is taken apart in it was supplied or predicted, or shows
a rule of the table for that field, all of whose inputs are known. Its text never says that a value
is unknown or a rule missing.
-/
theorem estimate_isTraceable {choose : RemovalPolicy} {rows : List Row}
    {descriptions : List (String × String)} {c : CompiledSheet} (bounded : rows.length ≤ 2 ^ 32)
    (compiled : compile choose rows descriptions = .ok c) {p : Predictor} {s : Settings}
    {known : List (String × Option Float)} {e : Estimate}
    (estimated : estimate c.table p s known = .ok e) {f : Field} (present : e.record.isKnown f)
    : let d := Derivation.ofField c.table e.record f
      let text := Derivation.trace c.table e.record f
      (∃ bases, d = .field f (c.table.source e.record f) bases)
      ∧ d.Grounded c.table e.record f
      ∧ ¬ "Unknown".toList <:+: text.toList
      ∧ ¬ "(not in table)".toList <:+: text.toList := by
  have coherent := RuleTable.check_eq_ok_iff_coherent.mp (check_of_compile compiled)
  have intact := coherent.intact_iff.mpr (RuleTable.ids_of_compile bounded compiled)
  obtain ⟨values, -, -, rfl⟩ := estimate_eq_ok_iff.mp estimated
  have traceable := coherent.traceable_combine intact.found s known (p.targets.zip values)
  have grounded := Derivation.grounded_ofField traceable present
  exact ⟨Derivation.ofField_eq_field c.table _ f, grounded, Derivation.not_isInfix_trace grounded⟩

/-- Rows by which the hip, which is predicted as well, leads to the seat in two ways. -/
def seatRows : List Row :=
  [
    { formula := "thigh = hip - 40" },
    { formula := "hip = waist * 1.5" },
    { formula := "seat = thigh + hip" }
  ]

/-- The derivation of the seat as it is printed. -/
def seatTrace : List String :=
  [
    "DERIVATION TRACE for field 'seat':",
    "--------------------------------------------------",
    "[L1] seat [230.000] = thigh [95.000] + hip [115.000] (rule #2)",
    "|--[L2] thigh [95.000] = hip [115.000] - 40 (rule #0)",
    "|  `--[L3] hip [115.000] [BLENDED] = waist [90.000] * 1.5000 (rule #1)",
    "|     `--[L4] waist [90.000] -> Supplied",
    "`---> (Ref to L3)"
  ]

theorem seat_isTraceable
    : ∃ c e,
        compile .lowestPriority seatRows [] = .ok c
        ∧ estimate c.table figurePredictor {} [("waist", some 90.0)] = .ok e
        ∧ let d := Derivation.ofField c.table e.record (.named "seat")
          let text := Derivation.trace c.table e.record (.named "seat")
          text = String.join (seatTrace.map (· ++ "\n"))
          ∧ d.Grounded c.table e.record (.named "seat")
          ∧ ¬ "Unknown".toList <:+: text.toList
          ∧ ¬ "(not in table)".toList <:+: text.toList := by
  obtain ⟨c, compiled, run⟩ : ∃ c,
      compile .lowestPriority seatRows [] = .ok c
      ∧ (estimate c.table figurePredictor {} [("waist", some 90.0)]).toOption.any (fun e =>
          e.record.isKnown (.named "seat")
          && Derivation.trace c.table e.record (.named "seat")
            = String.join (seatTrace.map (· ++ "\n"))) :=
    exists_of_run (by decide +kernel)
  obtain ⟨e, estimated, traced⟩ := exists_of_run run
  obtain ⟨present, text⟩ := Bool.and_eq_true_iff.mp traced
  obtain ⟨-, grounded, never⟩ :=
    estimate_isTraceable (by decide) compiled estimated present
  exact ⟨c, e, compiled, estimated, of_decide_eq_true text, grounded, never⟩

end MeasureSheet
