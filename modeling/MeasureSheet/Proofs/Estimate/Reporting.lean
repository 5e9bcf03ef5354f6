import MeasureSheet.Proofs.Compilation.Stages
import MeasureSheet.Proofs.Estimate.Composition
import MeasureSheet.Proofs.Inference.Exhaustion

/-! What estimates report. The unresolved targets and the findings of an estimate are those of the
record that it returns, although the targets are first told apart before anything is predicted,
blended and rounded.
-/

namespace MeasureSheet

-- -----------------------------------------------------------------------------------------------
-- Findings

theorem PlausibleRange.contains_iff {range : PlausibleRange} {x : Float}
    : range.contains x ↔ range.min ≤ x ∧ x ≤ range.max := by
  simp [contains]

/-- A value is found when its field has a range that does not contain it. -/
theorem Settings.finding?_eq_some_iff {s : Settings} {f : Field} {x : Float} {finding : Finding}
    : s.finding? f x = some finding
      ↔ finding.field = f
        ∧ finding.value = x
        ∧ s.range? f = some finding.range
        ∧ ¬ finding.range.contains x := by
  obtain ⟨field, value, range⟩ := finding
  cases configured : s.range? f with
  | none => simp [finding?, configured]
  | some own =>
      by_cases inside : own.contains x
      · have nothing : s.finding? f x = none := by simp [finding?, configured, inside]
        constructor
        · intro found
          cases nothing.symm.trans found
        · intro h
          obtain ⟨-, -, same, outside⟩ := h
          cases same
          exact absurd inside outside
      · simp only [finding?, configured, inside, Bool.false_eq_true, if_false, Option.some.injEq,
          Finding.mk.injEq]
        constructor
        · intro h
          obtain ⟨rfl, rfl, rfl⟩ := h
          exact ⟨rfl, rfl, rfl, inside⟩
        · intro h
          obtain ⟨rfl, rfl, rfl, -⟩ := h
          exact ⟨rfl, rfl, rfl⟩

/-- The findings are the values of the record that have a range and lie outside of it. -/
theorem Settings.mem_findings_iff {s : Settings} {r : Record} {finding : Finding}
    : finding ∈ s.findings r
      ↔ s.range? finding.field = some finding.range
        ∧ r.value? finding.field = some finding.value
        ∧ ¬ (finding.range.min ≤ finding.value ∧ finding.value ≤ finding.range.max) := by
  have entered (p : Field × Measurement)
      : p ∈ r.entries.entries ↔ r.measurement? p.1 = some p.2 :=
    FieldMap.find?_eq_some_iff.symm
  rw [← PlausibleRange.contains_iff, Record.value?, Option.map_eq_some_iff]
  simp only [findings, List.mem_filterMap, entered, finding?_eq_some_iff]
  constructor
  · intro h
    obtain ⟨p, present, own, value, range, outside⟩ := h
    rw [own, value]
    exact ⟨range, ⟨p.2, present, rfl⟩, outside⟩
  · intro h
    obtain ⟨range, ⟨m, present, value⟩, outside⟩ := h
    exact ⟨(finding.field, m), present, rfl, value.symm, range, value ▸ outside⟩

/-- Findings are made in lexical order of fields, as the entries of a record ascend. -/
theorem Settings.pairwise_findings (s : Settings) (r : Record)
    : (s.findings r).Pairwise fun a b => a.field < b.field := by
  refine List.pairwise_filterMap.mpr (r.entries.ascending.imp ?_)
  intro p q before a first b second
  rw [(finding?_eq_some_iff.mp first).1, (finding?_eq_some_iff.mp second).1]
  exact before

-- -----------------------------------------------------------------------------------------------
-- Estimates

/-- The lists of an estimate describe its record: the targets that are unknown in it, in evaluation
order, and its values outside of their ranges, by ascending fields and so one for each field.
-/
structure Estimate.DescribesRecord (e : Estimate) (t : RuleTable) (s : Settings) : Prop where
  unresolved : e.unresolved = t.order.filter fun f => !e.record.isKnown f
  ordered : e.findings.Pairwise fun a b => a.field < b.field
  found
    : ∀ finding,
        finding ∈ e.findings
        ↔ s.range? finding.field = some finding.range
          ∧ e.record.value? finding.field = some finding.value
          ∧ ¬ (finding.range.min ≤ finding.value ∧ finding.value ≤ finding.range.max)

/-- Over an accepted table the targets that inference left are filtered to those still unknown. -/
theorem RuleTable.Coherent.filter_unresolved {t : RuleTable} (coherent : t.Coherent)
    {given final : Record} (kept : (t.infer given).KeptBy final)
    : ((t.inference given).unresolved.filter fun f => !final.isKnown f)
      = t.order.filter fun f => !final.isKnown f := by
  rw [coherent.unresolved_inference, List.filter_filter]
  refine List.filter_congr fun f _ => ?_
  have known := kept.known f
  cases before : (t.infer given).isKnown f with
  | false => simp
  | true => simp [known before]

/-- The lists of an estimate over an accepted table describe the record that it returns: blending
and rounding forget no field, so a target that is unknown in the end was left by the rules.
-/
theorem estimate_describesRecord {t : RuleTable} {p : Predictor} {s : Settings}
    {known : List (String × Option Float)} {e : Estimate} (accepted : t.check = .ok ())
    (estimated : estimate t p s known = .ok e)
    : e.DescribesRecord t s := by
  obtain ⟨values, -, -, rfl⟩ := estimate_eq_ok_iff.mp estimated
  have coherent := RuleTable.check_eq_ok_iff_coherent.mp accepted
  exact {
    unresolved := coherent.filter_unresolved (s.keptBy_combine _ (p.targets.zip values)),
    ordered := s.pairwise_findings _,
    found := fun _ => Settings.mem_findings_iff
  }

/-- A predictor that knows the seat, but makes the strap no number. -/
def seatPredictor : Predictor where
  inputs := [.named "waist"]
  targets := [.named "seat", .named "strap"]
  predict _ := .ok [100.0, 0.0 / 0.0]

/-- Settings by which the figure of a person with a huge waist is not plausible at all. -/
def narrowSettings : Settings where
  ranges := .ofList [
    (.named "hip", { min := 70.0, max := 250.0 }),
    (.named "seat", { min := 0.0, max := 99.9 }),
    (.named "strap", { min := 0.0, max := 1.0 }),
    (.named "waist", { min := 50.0, max := 200.0 })
  ]

/-- The hip becomes infinite by rounding, and the seat, which rules leave, is predicted. -/
theorem strapTable_estimate_describesRecord
    : let t := RuleTable.strapTable
      t.check = .ok ()
      ∧ ∃ e,
          estimate t seatPredictor narrowSettings [("waist", some 1e308)] = .ok e
          ∧ e.unresolved = [.named "strap"]
          ∧ e.findings.map (fun finding => (finding.field, finding.value))
            = [(.named "hip", 1.0 / 0.0), (.named "seat", 100.0), (.named "waist", 1e308)]
          ∧ e.DescribesRecord t narrowSettings := by
  intro t
  have accepted : t.check = .ok () := by decide +kernel
  obtain ⟨e, estimated, listed⟩
      : ∃ e,
          estimate t seatPredictor narrowSettings [("waist", some 1e308)] = .ok e
          ∧ decide (e.unresolved = [.named "strap"]
              ∧ e.findings.map (fun finding => (finding.field, finding.value))
                = [(.named "hip", 1.0 / 0.0), (.named "seat", 100.0), (.named "waist", 1e308)]) :=
    exists_of_run (by decide +kernel)
  obtain ⟨unresolved, findings⟩ := of_decide_eq_true listed
  exact ⟨accepted, e, estimated, unresolved, findings, estimate_describesRecord accepted estimated⟩

end MeasureSheet
