import Mathlib.Data.List.Forall2
import MeasureSheet.Derivation
import MeasureSheet.Proofs.Record.Lookup

/-! Derivations that reach the ground. In a record whose rules can all be found and have known
inputs, the tree of a known field ends in supplied and predicted values alone, and nothing in it is
cut off.
-/

namespace MeasureSheet

variable {t : RuleTable} {r : Record}

/-- A source that accounts for a value of a field: no rule gave the value, or a rule of the table
for this very field did, and all its inputs are known.
-/
inductive Source.Founded (t : RuleTable) (r : Record) (f : Field) : Source → Prop where
  | supplied : Founded t r f .supplied
  | predicted : Founded t r f .predicted
  | rule (blended : Bool) {rule : Rule}
    (member : rule ∈ t.book.rules)
    (own : rule.target = f)
    (known : ∀ base ∈ rule.inputs, r.isKnown base)
    : Founded t r f (.rule blended rule)

theorem Source.Founded.known_of_mem_bases {f : Field} {source : Source}
    (founded : source.Founded t r f)
    : ∀ base ∈ source.bases, r.isKnown base := by
  cases founded with
  | supplied | predicted => simp [bases]
  | rule blended member own known => exact known

/-- Every known field of the record has a source in the table that accounts for it. -/
def Traceable (t : RuleTable) (r : Record) : Prop :=
  ∀ f, r.isKnown f → (t.source r f).Founded t r f

namespace Derivation

/-- A tree that accounts for a field: it refers to a place where the field occurred before, or it
shows what stands behind the field in the record, which is founded, with a tree for each of its
bases that accounts for the base.
-/
inductive Grounded (t : RuleTable) (r : Record) : Field → Derivation → Prop where
  | again (f : Field) (level : Nat) : Grounded t r f (.again level)
  | field {f : Field} {bases : List Derivation}
    (founded : (t.source r f).Founded t r f)
    (traced : List.Forall₂ (Grounded t r) (t.source r f).bases bases)
    : Grounded t r f (.field f (t.source r f) bases)

/-- When each step gives a good result and keeps an invariant of the state, all results are good and
the invariant holds in the end, by induction on the list.
-/
theorem forall₂_mapThrough {α β σ : Type} (Good : α → β → Prop) (Invariant : σ → Prop)
    {f : α → σ → β × σ} {items : List α}
    (step
      : ∀ a ∈ items,
        ∀ state, Invariant state → Good a (f a state).1 ∧ Invariant (f a state).2)
    {state : σ} (start : Invariant state)
    : List.Forall₂ Good items (mapThrough f items state).1
      ∧ Invariant (mapThrough f items state).2 := by
  induction items generalizing state with
  | nil => exact ⟨.nil, start⟩
  | cons a rest ih =>
      obtain ⟨first, later⟩ := List.forall_mem_cons.mp step
      obtain ⟨good, kept⟩ := first state start
      obtain ⟨goods, keptRest⟩ := ih later kept
      exact ⟨.cons good goods, keptRest⟩

-- -----------------------------------------------------------------------------------------------
-- Steps of a traversal

theorem build_of_seen {f : Field} {seen : FieldMap Nat} {first : Nat}
    (occurred : seen.find? f = some first) (depth level : Nat)
    : build t r depth level f seen = (.again first, seen) := by
  cases depth <;> simp [build, occurred]

theorem build_succ {f : Field} {seen : FieldMap Nat} (fresh : seen.find? f = none)
    (depth level : Nat)
    : build t r (depth + 1) level f seen
      = (.field f (t.source r f)
          (mapThrough (build t r depth (level + 1)) (t.source r f).bases (seen.insert f level)).1,
          (mapThrough (build t r depth (level + 1)) (t.source r f).bases
            (seen.insert f level)).2) := by
  simp only [build, fresh]

-- -----------------------------------------------------------------------------------------------
-- Depth

/-- The known fields that have not occurred. -/
def unseen (r : Record) (seen : FieldMap Nat) : List Field :=
  r.entries.keys.filter fun f => !seen.contains f

theorem length_unseen_le (r : Record) (seen : FieldMap Nat) : (unseen r seen).length ≤ r.size := by
  have le := List.length_filter_le (fun f => !seen.contains f) r.entries.keys
  rwa [FieldMap.keys, List.length_map] at le

theorem unseen_insert (r : Record) (seen : FieldMap Nat) (f : Field) (level : Nat)
    : unseen r (seen.insert f level) = (unseen r seen).filter (· ≠ f) := by
  rw [unseen, unseen, List.filter_filter]
  apply List.filter_congr
  intro g _
  by_cases same : g = f <;> simp [FieldMap.contains, FieldMap.find?_insert, same]

/-- Where a known field occurs first, one field fewer has not occurred. -/
theorem length_unseen_insert {f : Field} (known : r.isKnown f) {seen : FieldMap Nat}
    (fresh : seen.find? f = none) (level : Nat)
    : (unseen r (seen.insert f level)).length < (unseen r seen).length := by
  have member : f ∈ unseen r seen :=
    List.mem_filter.mpr
      ⟨FieldMap.mem_keys_iff_contains.mpr known, by simp [FieldMap.contains, fresh]⟩
  rw [unseen_insert, List.length_filter_lt_length_iff_exists]
  exact ⟨f, member, by simp⟩

theorem length_unseen_insert_le (f : Field) (seen : FieldMap Nat) (level : Nat)
    : (unseen r (seen.insert f level)).length ≤ (unseen r seen).length := by
  rw [unseen_insert]
  exact List.length_filter_le _ _

/-- A traversal leaves no more fields unseen than it finds, by induction on the depth. -/
theorem length_unseen_build_le (depth level : Nat) (f : Field) (seen : FieldMap Nat)
    : (unseen r (build t r depth level f seen).2).length ≤ (unseen r seen).length := by
  induction depth generalizing level f seen with
  | zero =>
      cases occurred : seen.find? f with
      | some first => simp [build_of_seen occurred]
      | none => simpa [build, occurred] using length_unseen_insert_le f seen level
  | succ depth ih =>
      cases occurred : seen.find? f with
      | some first => simp [build_of_seen occurred]
      | none =>
          rw [build_succ occurred]
          exact (forall₂_mapThrough (fun _ _ => True)
            (fun left => (unseen r left).length ≤ (unseen r seen).length)
            (fun base _ left fewer => ⟨trivial, Nat.le_trans (ih (level + 1) base left) fewer⟩)
            (length_unseen_insert_le f seen level)).2

/-- A depth that leaves room for all fields that have not occurred is enough, by induction on it: a
field that occurs first takes one from both, and its bases leave no more fields than they find.
-/
theorem grounded_build (traceable : Traceable t r) {depth : Nat} {f : Field} (known : r.isKnown f)
    {seen : FieldMap Nat} (room : (unseen r seen).length ≤ depth) (level : Nat)
    : Grounded t r f (build t r depth level f seen).1 := by
  induction depth generalizing level f seen with
  | zero =>
      cases occurred : seen.find? f with
      | some first => exact build_of_seen occurred 0 level ▸ .again f first
      | none =>
          have less := length_unseen_insert known occurred level
          omega
  | succ depth ih =>
      cases occurred : seen.find? f with
      | some first => exact build_of_seen occurred (depth + 1) level ▸ .again f first
      | none =>
          have less := length_unseen_insert known occurred level
          have founded := traceable f known
          have step (base : Field) (input : base ∈ (t.source r f).bases) (left : FieldMap Nat)
              (room : (unseen r left).length ≤ depth)
              : Grounded t r base (build t r depth (level + 1) base left).1
                ∧ (unseen r (build t r depth (level + 1) base left).2).length ≤ depth :=
            ⟨ih (founded.known_of_mem_bases base input) room (level + 1),
              Nat.le_trans (length_unseen_build_le depth (level + 1) base left) room⟩
          obtain ⟨traced, -⟩ :=
            forall₂_mapThrough (Grounded t r) (fun left => (unseen r left).length ≤ depth) step
              (Nat.le_of_lt_succ (Nat.lt_of_lt_of_le less room))
          rw [build_succ occurred]
          exact .field founded traced

/-- The field that a derivation is of has not occurred, so it is taken apart. -/
theorem ofField_eq_field (t : RuleTable) (r : Record) (f : Field)
    : ∃ bases, ofField t r f = .field f (t.source r f) bases := by
  cases size : r.size <;> simp [ofField, build, size]

/-- The tree of a known field is grounded: a record is as deep as any of its trees. -/
theorem grounded_ofField (traceable : Traceable t r) {f : Field} (known : r.isKnown f)
    : Grounded t r f (ofField t r f) :=
  grounded_build traceable known (length_unseen_le r ∅) 1

end Derivation

end MeasureSheet
