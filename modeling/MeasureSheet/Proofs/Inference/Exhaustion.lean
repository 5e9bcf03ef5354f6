import MeasureSheet.Proofs.Inference.Explanation

/-! What inference leaves unresolved. The targets that it reports are those that are unknown in the
end, and none of their candidates can be evaluated any more, so a second run has nothing to fill.
-/

namespace MeasureSheet

-- -----------------------------------------------------------------------------------------------
-- Reports of a run

namespace Inference

variable (t : RuleTable) (i : Inference)

theorem isKnown_visit_of_ne {target f : Field} (different : f ≠ target)
    : (i.visit t target).record.isKnown f = i.record.isKnown f := by
  apply Record.isKnown_congr
  rw [RuleTable.measurement?_visit, if_neg fun h => different h.1]

/-- A visit reports its target when it leaves the target unknown, and nothing else. -/
theorem unresolved_visit (target : Field)
    : (i.visit t target).unresolved
      = i.unresolved ++ [target].filter fun f => !(i.visit t target).record.isKnown f := by
  unfold visit
  split
  next known => simp [known]
  next unknown =>
    have unknown : i.record.isKnown target = false := by simpa using unknown
    split
    next id value applied =>
      have filled := Record.isKnown_store_of_unknown unknown { value, provenance := .rule id }
      simp [filled]
    next => simp [unknown]

/-- What is known of a field does not change when other targets are visited, by list induction. -/
theorem isKnown_foldl_visit {targets : List Field} {f : Field} (absent : f ∉ targets)
    : (targets.foldl (visit t) i).record.isKnown f = i.record.isKnown f := by
  induction targets generalizing i with
  | nil => rfl
  | cons target rest ih =>
      obtain ⟨different, later⟩ := not_or.mp (mt List.mem_cons.mpr absent)
      rw [List.foldl_cons, ih (i.visit t target) later, isKnown_visit_of_ne t i different]

/-- Visits of different targets report those that are unknown when all visits are done, by induction
on the targets: once visited, a target is left alone.
-/
theorem unresolved_foldl_visit {targets : List Field} (unique : targets.Nodup)
    : (targets.foldl (visit t) i).unresolved
      = i.unresolved
        ++ targets.filter fun f => !(targets.foldl (visit t) i).record.isKnown f := by
  induction targets generalizing i with
  | nil => simp
  | cons target rest ih =>
      obtain ⟨fresh, unique⟩ := List.nodup_cons.mp unique
      have settled := isKnown_foldl_visit t (i.visit t target) fresh
      rw [List.foldl_cons, ih (i.visit t target) unique, unresolved_visit, List.append_assoc]
      cases known : (i.visit t target).record.isKnown target <;>
        simp [settled, known]

end Inference

namespace RuleTable

variable {t : RuleTable}

/-- The unresolved targets of an accepted table are the unknown ones, in evaluation order. -/
theorem Coherent.unresolved_inference (coherent : t.Coherent) (given : Record)
    : (t.inference given).unresolved = t.order.filter fun f => !(t.infer given).isKnown f :=
  Inference.unresolved_foldl_visit t (Inference.start given) coherent.unique

-- -----------------------------------------------------------------------------------------------
-- Records with nothing left to fill

/-- No candidate for an unknown target can be evaluated over the record. -/
def Exhausts (t : RuleTable) (r : Record) : Prop :=
  ∀ f ∈ t.order,
    r.isKnown f = false → ∀ rule ∈ t.candidates f, rule.relation.evaluate r.value? = none

/-- An unknown target was unknown before, and so its candidates say nothing in the end. -/
theorem Coherent.exhausts_infer (coherent : t.Coherent) (given : Record)
    : t.Exhausts (t.infer given) := by
  intro f _ unknown
  have final := coherent.measurement?_infer given f
  rw [Record.isKnown_eq_false_iff.mp unknown] at final
  exact answer?_eq_none_iff.mp (Option.or_eq_none_iff.mp final.symm).2

/-- Visits over a record with nothing left to fill only report, by induction on the targets. -/
theorem Exhausts.foldl_visit {r : Record} (exhausted : t.Exhausts r) {targets : List Field}
    (ordered : targets ⊆ t.order) (filled : List (Field × RuleId)) (unresolved : List Field)
    : targets.foldl (Inference.visit t) { record := r, filled, unresolved }
      = {
          record := r,
          filled,
          unresolved := unresolved ++ targets.filter fun f => !r.isKnown f
        } := by
  induction targets generalizing unresolved with
  | nil => simp
  | cons target rest ih =>
      obtain ⟨member, ordered⟩ := List.cons_subset.mp ordered
      rw [List.foldl_cons, Inference.visit]
      by_cases known : r.isKnown target
      · simp [known, ih ordered]
      · have unknown : r.isKnown target = false := by simpa using known
        have none : firstApplicable? r.value? (t.candidates target) = none := by
          refine List.findSome?_eq_none_iff.mpr fun rule candidate => ?_
          rw [exhausted target member unknown rule candidate, Option.map_none]
        simp [unknown, none, ih ordered]

/-- A second run over what an accepted table has inferred fills nothing, changes nothing, and
reports the same targets as unresolved.
-/
theorem inference_infer (accepted : t.check = .ok ()) (given : Record)
    : t.inference (t.infer given)
      = {
          record := t.infer given,
          filled := [],
          unresolved := (t.inference given).unresolved
        } := by
  have coherent := check_eq_ok_iff_coherent.mp accepted
  have exhausted := coherent.exhausts_infer given
  rw [coherent.unresolved_inference given]
  exact exhausted.foldl_visit (List.Subset.refl t.order) [] []

/-- A table whose strap follows from the hip by a division, or else from the buckle. -/
def strapTable : RuleTable where
  order := [.named "hip", .named "strap", .named "seat"]
  book := .ofRules [
    {
      id := .ofRow 0,
      target := .named "hip",
      relation := .proportion (.named "waist") 1.5,
      priority := 1
    },
    {
      id := .ofRow 1,
      target := .named "strap",
      relation := .combine (.named "hip") .divide (.named "belt"),
      priority := 1
    },
    {
      id := .ofRow 2,
      target := .named "strap",
      relation := .ratio (.named "buckle") 0.5,
      priority := 2
    },
    {
      id := .ofRow 3,
      target := .named "seat",
      relation := .combine (.named "hip") .add (.named "strap"),
      priority := 1
    }
  ]
  descriptions := ∅

/-- The strap is divided by zero in both runs, so the seat fails in both as well. -/
theorem strapTable_inference_infer
    : strapTable.check = .ok ()
      ∧ (strapTable.inference figure).filled = [(.named "hip", .ofRow 0)]
      ∧ strapTable.inference (strapTable.infer figure)
        = {
            record := strapTable.infer figure,
            filled := [],
            unresolved := [.named "strap", .named "seat"]
          } := by
  have accepted : strapTable.check = .ok () := by decide +kernel
  have first
      : (strapTable.inference figure).filled = [(.named "hip", .ofRow 0)]
        ∧ (strapTable.inference figure).unresolved = [.named "strap", .named "seat"] := by
    decide +kernel
  exact ⟨accepted, first.1, first.2 ▸ inference_infer accepted figure⟩

end RuleTable

end MeasureSheet
