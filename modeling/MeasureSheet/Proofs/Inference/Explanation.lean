import MeasureSheet.Inference
import MeasureSheet.Proofs.Record.Lookup
import MeasureSheet.Proofs.RuleTable.Candidates

/-! What inference means. A record explains a target when it holds the value of the first candidate
that evaluates over the same record; one pass in evaluation order leaves the only such record.
-/

namespace MeasureSheet

/-- What candidates say over known values: the value of the first of them that evaluates, ascribed
to it, or nothing when none evaluates.
-/
inductive Answers (known : Field → Option Float) : List Rule → Option Measurement → Prop where
  | silent {candidates : List Rule}
    (skipped : ∀ r ∈ candidates, r.relation.evaluate known = none)
    : Answers known candidates none
  | first {before after : List Rule} {rule : Rule} {value : Float}
    (skipped : ∀ r ∈ before, r.relation.evaluate known = none)
    (evaluates : rule.relation.evaluate known = some value)
    : Answers known (before ++ rule :: after) (some { value, provenance := .rule rule.id })

/-- The first applicable candidate as a measurement. -/
def answer? (known : Field → Option Float) (candidates : List Rule) : Option Measurement :=
  (firstApplicable? known candidates).map fun p => { value := p.2, provenance := .rule p.1 }

theorem answer?_nil (known : Field → Option Float) : answer? known [] = none :=
  rfl

theorem answer?_cons (known : Field → Option Float) (r : Rule) (rest : List Rule)
    : answer? known (r :: rest)
      = match r.relation.evaluate known with
        | some value => some { value, provenance := .rule r.id }
        | none => answer? known rest := by
  cases evaluated : r.relation.evaluate known <;>
    simp [answer?, firstApplicable?, evaluated]

/-- Candidates say nothing else than the search among them gives, by induction on the skipped. -/
theorem Answers.eq_answer? {known : Field → Option Float} {candidates : List Rule}
    {m : Option Measurement} (answers : Answers known candidates m)
    : m = answer? known candidates := by
  cases answers with
  | silent skipped =>
      induction candidates with
      | nil => rfl
      | cons r rest ih =>
          obtain ⟨none, skippedRest⟩ := List.forall_mem_cons.mp skipped
          rw [answer?_cons, none]
          exact ih skippedRest
  | @first before after rule value skipped evaluates =>
      induction before with
      | nil => rw [List.nil_append, answer?_cons, evaluates]
      | cons r rest ih =>
          obtain ⟨none, skippedRest⟩ := List.forall_mem_cons.mp skipped
          rw [List.cons_append, answer?_cons, none]
          exact ih skippedRest

/-- The search among candidates gives what they say. -/
theorem answers_answer? (known : Field → Option Float) (candidates : List Rule)
    : Answers known candidates (answer? known candidates) := by
  induction candidates with
  | nil => exact .silent (by simp)
  | cons r rest ih =>
      rw [answer?_cons]
      cases evaluated : r.relation.evaluate known with
      | some value =>
          have none : ∀ s ∈ ([] : List Rule), s.relation.evaluate known = none := by simp
          exact .first none evaluated
      | none =>
          dsimp only
          generalize answer? known rest = m at ih
          cases ih with
          | silent skipped => exact .silent (List.forall_mem_cons.mpr ⟨evaluated, skipped⟩)
          | first skipped evaluates =>
              exact .first (List.forall_mem_cons.mpr ⟨evaluated, skipped⟩) evaluates

theorem answers_iff {known : Field → Option Float} {candidates : List Rule}
    {m : Option Measurement}
    : Answers known candidates m ↔ m = answer? known candidates :=
  ⟨Answers.eq_answer?, fun same => same ▸ answers_answer? known candidates⟩

theorem answer?_eq_none_iff {known : Field → Option Float} {candidates : List Rule}
    : answer? known candidates = none ↔ ∀ r ∈ candidates, r.relation.evaluate known = none := by
  simp [answer?, firstApplicable?, List.findSome?_eq_none_iff]

/-- What candidates say is the value of one of them, ascribed to it. -/
theorem exists_of_answer? {known : Field → Option Float} {candidates : List Rule} {m : Measurement}
    (said : answer? known candidates = some m)
    : ∃ r ∈ candidates,
        ∃ value,
          r.relation.evaluate known = some value ∧ m = { value, provenance := .rule r.id } := by
  have answers := answers_iff.mpr said.symm
  cases answers with
  | @first before after rule value _ evaluates =>
      exact ⟨rule, List.mem_append_right before List.mem_cons_self, value, evaluates, rfl⟩

/-- Candidates see their inputs only. -/
theorem answer?_congr {known known' : Field → Option Float} {candidates : List Rule}
    (same : ∀ r ∈ candidates, ∀ base ∈ r.inputs, known base = known' base)
    : answer? known candidates = answer? known' candidates := by
  induction candidates with
  | nil => rfl
  | cons r rest ih =>
      obtain ⟨first, later⟩ := List.forall_mem_cons.mp same
      rw [answer?_cons, answer?_cons, Relation.evaluate_congr first, ih later]

namespace RuleTable

/-- A record follows from another by the rules for some targets: what was known and what is no
target is as before, and every other target holds what its candidates say over the record itself.
-/
structure Explains (t : RuleTable) (targets : List Field) (given final : Record) : Prop where
  kept : ∀ f, given.isKnown f ∨ f ∉ targets → final.measurement? f = given.measurement? f
  derived
    : ∀ f ∈ targets,
        given.isKnown f = false
        → Answers final.value? (t.candidates f) (final.measurement? f)

variable {t : RuleTable}

-- -----------------------------------------------------------------------------------------------
-- One pass

theorem measurement?_visit (i : Inference) (target g : Field)
    : (i.visit t target).record.measurement? g
      = if g = target ∧ i.record.isKnown target = false
        then answer? i.record.value? (t.candidates target)
        else i.record.measurement? g := by
  unfold Inference.visit answer?
  by_cases known : i.record.isKnown target
  · simp [known]
  · have unknown : i.record.isKnown target = false := by simpa using known
    rw [if_neg known]
    cases applied : firstApplicable? i.record.value? (t.candidates target) with
    | some p =>
        simp only [Record.measurement?_store_of_unknown unknown, unknown, and_true,
          Option.map_some]
    | none =>
        by_cases same : g = target
        · subst same
          simpa [unknown] using Record.isKnown_eq_false_iff.mp unknown
        · simp [same]

/-- In a list of different fields no field stands behind those that follow it. -/
theorem idxOf_le_of_mem_visited {visited : List Field} (rest : List Field) {target f : Field}
    (fresh : target ∉ visited) (member : f ∈ visited ++ [target])
    : (visited ++ target :: rest).idxOf f ≤ (visited ++ target :: rest).idxOf target := by
  rw [List.idxOf_append (a := target), if_neg fresh, List.idxOf_append]
  split
  next old =>
    have bound := List.idxOf_lt_length_of_mem old
    omega
  next new =>
    obtain rfl := List.mem_singleton.mp ((List.mem_append.mp member).resolve_left new)
    exact Nat.le_refl _

/-- Candidates of a target and of those before it do not see what is stored for the target. -/
theorem Coherent.answer?_visit (coherent : t.Coherent) {visited rest : List Field}
    {target : Field} (order : t.order = visited ++ target :: rest) (fresh : target ∉ visited)
    {f : Field} (member : f ∈ visited ++ [target]) (i : Inference)
    : answer? (i.visit t target).record.value? (t.candidates f)
      = answer? i.record.value? (t.candidates f) := by
  apply answer?_congr
  intro r candidate base input
  have unseen : base ≠ target := by
    rintro rfl
    have earlier := coherent.input_before candidate input (by simp [order])
    have notBehind := order ▸ idxOf_le_of_mem_visited rest fresh member
    omega
  apply Record.value?_congr
  rw [measurement?_visit, if_neg fun h => unseen h.1]

/-- Visiting the next target of the order explains it besides the targets before it: what their
candidates and its own say stays the same when it is filled.
-/
theorem Coherent.explains_visit (coherent : t.Coherent) {visited rest : List Field}
    {target : Field} (order : t.order = visited ++ target :: rest) {given : Record} {i : Inference}
    (explains : t.Explains visited given i.record)
    : t.Explains (visited ++ [target]) given (i.visit t target).record := by
  have fresh : target ∉ visited := by
    have unique := coherent.unique
    rw [order] at unique
    exact fun old => (List.nodup_append.mp unique).2.2 target old target (by simp) rfl
  constructor
  · intro f excused
    have before : given.isKnown f ∨ f ∉ visited :=
      excused.imp_right fun absent old => absent (List.mem_append_left _ old)
    have same := explains.kept f before
    rw [measurement?_visit, if_neg, same]
    -- The target itself is neither known nor left out, when it is visited.
    intro h
    obtain ⟨rfl, unknown⟩ := h
    rcases excused with known | absent
    · rw [Record.isKnown_congr same, known] at unknown
      cases unknown
    · exact absent (by simp)
  · intro f member unknown
    rw [answers_iff, coherent.answer?_visit order fresh member, measurement?_visit]
    by_cases same : f = target
    · subst same
      have still : i.record.isKnown f = false := by
        rw [Record.isKnown_congr (explains.kept f (Or.inr fresh)), unknown]
      rw [if_pos ⟨rfl, still⟩]
    · have old : f ∈ visited :=
        (List.mem_append.mp member).resolve_right fun last => same (List.mem_singleton.mp last)
      rw [if_neg fun h => same h.1]
      exact answers_iff.mp (explains.derived f old unknown)

/-- The pass over the whole order explains all its targets, by induction on what is left of it. -/
theorem Coherent.explains_infer (coherent : t.Coherent) (given : Record)
    : t.Explains t.order given (t.infer given) := by
  have general (rest visited : List Field) (i : Inference) (order : t.order = visited ++ rest)
      (explains : t.Explains visited given i.record)
      : t.Explains t.order given (rest.foldl (Inference.visit t) i).record := by
    induction rest generalizing visited i with
    | nil =>
        rw [order, List.append_nil]
        exact explains
    | cons target rest ih =>
        apply ih (visited ++ [target])
        · rw [order, List.append_assoc, List.singleton_append]
        · exact coherent.explains_visit order explains
  apply general t.order [] (Inference.start given) rfl
  exact ⟨fun _ _ => rfl, fun f member => absurd member List.not_mem_nil⟩

/-- A field has what was known for it, or else what its candidates say in the end, if it has any. -/
theorem Coherent.measurement?_infer (coherent : t.Coherent) (given : Record) (f : Field)
    : (t.infer given).measurement? f
      = (given.measurement? f).or (answer? (t.infer given).value? (t.candidates f)) := by
  have explains := coherent.explains_infer given
  cases found : given.measurement? f with
  | some m =>
      have known : given.isKnown f := Record.isKnown_iff.mpr (by simp [found])
      rw [explains.kept f (Or.inl known), found, Option.some_or]
  | none =>
      rw [Option.none_or]
      by_cases ordered : f ∈ t.order
      · have unknown := Record.isKnown_eq_false_iff.mpr found
        exact answers_iff.mp (explains.derived f ordered unknown)
      · rw [explains.kept f (Or.inr ordered), found, coherent.candidates_eq_nil ordered,
          answer?_nil]

-- -----------------------------------------------------------------------------------------------
-- Uniqueness

/-- Records that explain the whole order from one record agree, by induction on the position of a
field: candidates see earlier targets and fields that stay as they were.
-/
theorem Coherent.explains_unique (coherent : t.Coherent) {given left right : Record}
    (explainsLeft : t.Explains t.order given left) (explainsRight : t.Explains t.order given right)
    : left = right := by
  apply Record.ext_measurement?
  intro f
  induction position : t.order.idxOf f using Nat.strongRecOn generalizing f with
  | ind position ih =>
      by_cases excused : given.isKnown f ∨ f ∉ t.order
      · rw [explainsLeft.kept f excused, explainsRight.kept f excused]
      · obtain ⟨unknown, ordered⟩ := not_or.mp excused
        have member : f ∈ t.order := Decidable.not_not.mp ordered
        have unknown : given.isKnown f = false := by simpa using unknown
        rw [answers_iff.mp (explainsLeft.derived f member unknown),
          answers_iff.mp (explainsRight.derived f member unknown)]
        apply answer?_congr
        intro r candidate base input
        apply Record.value?_congr
        by_cases inside : base ∈ t.order
        · exact ih _ (position ▸ coherent.input_before candidate input inside) base rfl
        · rw [explainsLeft.kept base (Or.inr inside), explainsRight.kept base (Or.inr inside)]

/-- The explanation of a record depends on the candidates of the table alone, not on its order. -/
theorem Coherent.explains_of_candidates {t' : RuleTable} (coherent : t.Coherent)
    (coherent' : t'.Coherent) (same : ∀ f, t'.candidates f = t.candidates f)
    {given final : Record} (explains : t.Explains t.order given final)
    : t'.Explains t'.order given final := by
  have silent {f : Field} (none : t.candidates f = []) (unknown : given.isKnown f = false)
      : final.measurement? f = given.measurement? f := by
    by_cases member : f ∈ t.order
    · have answers := answers_iff.mp (explains.derived f member unknown)
      rw [answers, none, answer?_nil, Record.isKnown_eq_false_iff.mp unknown]
    · exact explains.kept f (Or.inr member)
  constructor
  · intro f excused
    by_cases known : given.isKnown f
    · exact explains.kept f (Or.inl known)
    · have absent := excused.resolve_left known
      exact silent (same f ▸ coherent'.candidates_eq_nil absent) (by simpa using known)
  · intro f member unknown
    rw [same f]
    by_cases inside : f ∈ t.order
    · exact explains.derived f inside unknown
    · have none := coherent.candidates_eq_nil inside
      rw [answers_iff, silent none unknown, none, answer?_nil,
        Record.isKnown_eq_false_iff.mp unknown]

/-- Inference over an accepted table leaves the one record that follows by its rules from what was
known, so accepted tables with the same candidates infer the same whatever their orders are.
-/
theorem infer_is_only_explanation (accepted : t.check = .ok ()) (given : Record)
    : (∀ final, t.Explains t.order given final ↔ final = t.infer given)
      ∧ ∀ t' : RuleTable,
          t'.check = .ok ()
          → (∀ f, t'.candidates f = t.candidates f)
          → t'.infer given = t.infer given := by
  have coherent := check_eq_ok_iff_coherent.mp accepted
  have explains := coherent.explains_infer given
  refine ⟨fun final => ⟨fun h => coherent.explains_unique h explains, ?_⟩, ?_⟩
  · rintro rfl
    exact explains
  · intro t' accepted' same
    have coherent' := check_eq_ok_iff_coherent.mp accepted'
    exact coherent'.explains_unique (coherent'.explains_infer given)
      (coherent.explains_of_candidates coherent' same explains)

/-- A table with two candidates for the hip, of which the first divides, and a thigh that follows
from the hip; its calf follows from a field without rules.
-/
def figureTable (order : List Field) : RuleTable where
  order
  book := .ofRules [
    {
      id := .ofRow 0,
      target := .named "hip",
      relation := .combine (.named "waist") .divide (.named "belt"),
      priority := 1
    },
    {
      id := .ofRow 1,
      target := .named "hip",
      relation := .proportion (.named "waist") 1.5,
      priority := 2
    },
    {
      id := .ofRow 2,
      target := .named "thigh",
      relation := .offset (.named "hip") (-40.0),
      priority := 1
    },
    {
      id := .ofRow 3,
      target := .named "calf",
      relation := .ratio (.named "height") 0.25,
      priority := 1
    }
  ]
  descriptions := ∅

/-- A figure whose belt makes the first candidate for the hip divide by zero. -/
def figure : Record :=
  .ofKnown [("waist", some 70.0), ("belt", some 0.0)]

theorem figureTable_infers_alike
    : let early := figureTable [.named "hip", .named "thigh", .named "calf"]
      let late := figureTable [.named "calf", .named "hip", .named "thigh"]
      early.check = .ok ()
      ∧ late.check = .ok ()
      ∧ early.Explains early.order figure (early.infer figure)
      ∧ (early.infer figure).value? (.named "thigh") = some 65.0
      ∧ late.infer figure = early.infer figure := by
  intro early late
  have acceptedEarly : early.check = .ok () := rfl
  have acceptedLate : late.check = .ok () := rfl
  obtain ⟨only, alike⟩ := infer_is_only_explanation acceptedEarly figure
  exact ⟨acceptedEarly, acceptedLate, (only _).mpr rfl, rfl, alike late acceptedLate fun _ => rfl⟩

end RuleTable

end MeasureSheet
