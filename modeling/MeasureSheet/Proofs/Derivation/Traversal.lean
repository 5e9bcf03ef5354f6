import MeasureSheet.Proofs.Derivation.Grounding
import MeasureSheet.Proofs.Derivation.Indentation

/-! Derivations as traversals. The text of a derivation goes through a finite tree of fields from
the top, whatever rules a table has: each field is taken apart where it first stands in this order,
and its other places refer to the level of that one.
-/

namespace MeasureSheet

-- -----------------------------------------------------------------------------------------------
-- Trees of fields

/-- A field, and below it the fields that its value follows from. -/
inductive FieldTree where
  | node (field : Field) (bases : List FieldTree)

def FieldTree.field : FieldTree → Field
  | node f _ => f

/-- A place of a tree: the field that stands there, the fields right below it, and the way down from
the root, which tells for each of its steps whether it leads to a last child.
-/
structure Visit where
  field : Field
  way : List Bool
  bases : List Field

/-- The root stands at level one. -/
def Visit.level (v : Visit) : Nat :=
  v.way.length + 1

mutual

/-- The places of a tree in pre-order: its root, then the trees below it from first to last. -/
def FieldTree.visits (way : List Bool) : FieldTree → List Visit
  | .node f bases => { field := f, way, bases := bases.map field } :: visitsBelow way bases

def FieldTree.visitsBelow (way : List Bool) : List FieldTree → List Visit
  | [] => []
  | base :: rest => visits (way ++ [rest.isEmpty]) base ++ visitsBelow way rest

end

-- -----------------------------------------------------------------------------------------------
-- What stands at a place

/-- The rule is the first one with a number among the rules of the table. -/
def RuleTable.Lists (t : RuleTable) (id : RuleId) (rule : Rule) : Prop :=
  ∃ front back,
    t.book.rules = front ++ rule :: back ∧ rule.id = id ∧ ∀ other ∈ front, other.id ≠ id

theorem RuleTable.findRule?_eq_some_iff {t : RuleTable} {id : RuleId} {rule : Rule}
    : t.findRule? id = some rule ↔ t.Lists id rule := by
  simp only [findRule?, RuleBook.find?, List.find?_eq_some_iff_append, Lists, decide_eq_true_eq,
    Bool.not_eq_true', decide_eq_false_iff_not]
  constructor
  · rintro ⟨same, front, back, rules, absent⟩
    exact ⟨front, back, rules, same, absent⟩
  · rintro ⟨front, back, rules, same, absent⟩
    exact ⟨same, front, back, rules, absent⟩

/-- The record ascribes the value of a field to a rule, alone or blended, that the table lists. -/
def RuleTable.Credits (t : RuleTable) (r : Record) (f : Field) (rule : Rule) : Prop :=
  ∃ m id,
    r.measurement? f = some m
    ∧ (m.provenance = .rule id ∨ m.provenance = .blended id)
    ∧ t.Lists id rule

/-- The fields from which a field is derived: the inputs of the rule it is credited to, if any. -/
inductive Unfolds (t : RuleTable) (r : Record) (f : Field) : List Field → Prop where
  | rule {rule : Rule} (credited : t.Credits r f rule) : Unfolds t r f rule.inputs
  | ground (uncredited : ∀ rule, ¬ t.Credits r f rule) : Unfolds t r f []

/-- A line tells of a place behind others. A field that stands at none of those is unfolded, and the
line says its level, its value and where that came from. A field that does is not, and the line
refers to the level of its first place. Either is indented by the way to the place.
-/
inductive TellsOf (t : RuleTable) (r : Record) (before : List Visit) (v : Visit)
    : String → Prop where
  | first (fresh : ∀ u ∈ before, u.field ≠ v.field) (unfolded : Unfolds t r v.field v.bases)
    : TellsOf t r before v
        (Derivation.indent v.way ++ s!"[L{v.level}] {v.field.text}"
          ++ Derivation.valueText r v.field ++ Derivation.sourceText r (t.source r v.field))
  | again {first : Visit} (occurred : before.find? (fun u => u.field = v.field) = some first)
    (leaf : v.bases = [])
    : TellsOf t r before v (Derivation.indent v.way ++ s!"-> (Ref to L{first.level})")

/-- Lines tell of places one by one, each behind those that were told of before. -/
inductive Tells (t : RuleTable) (r : Record)
    : (before visits : List Visit) → List String → Prop where
  | nil (before : List Visit) : Tells t r before [] []
  | cons {before rest : List Visit} {v : Visit} {line : String} {lines : List String}
    (tells : TellsOf t r before v line)
    (later : Tells t r (before ++ [v]) rest lines)
    : Tells t r before (v :: rest) (line :: lines)

section

variable {t : RuleTable} {r : Record}

theorem Tells.append {before visits others : List Visit} {lines more : List String}
    (first : Tells t r before visits lines) (second : Tells t r (before ++ visits) others more)
    : Tells t r before (visits ++ others) (lines ++ more) := by
  induction first with
  | nil before => simpa using second
  | cons tells later ih => exact .cons tells (ih (by simpa using second))

/-- The bases of a field's source are the inputs of the rule that the field is credited to. -/
theorem unfolds_source (t : RuleTable) (r : Record) (f : Field)
    : Unfolds t r f (t.source r f).bases := by
  unfold RuleTable.source
  cases held : r.measurement? f with
  | none => exact .ground (by rintro rule ⟨m, id, found, -⟩; rw [held] at found; cases found)
  | some m =>
      obtain ⟨value, provenance⟩ := m
      have credits {id : RuleId} (cited : provenance = .rule id ∨ provenance = .blended id)
          (blended : Bool)
          : Unfolds t r f (t.ruleSource blended id).bases := by
        unfold RuleTable.ruleSource
        cases listed : t.findRule? id with
        | some rule =>
            exact .rule ⟨_, id, held, cited, RuleTable.findRule?_eq_some_iff.mp listed⟩
        | none =>
            refine .ground ?_
            rintro rule ⟨m, other, found, citing, present⟩
            rw [held] at found
            cases found
            obtain rfl : id = other := by
              rcases cited with rfl | rfl <;> simpa using citing
            rw [← RuleTable.findRule?_eq_some_iff, listed] at present
            cases present
      cases provenance with
      | rule id => exact credits (Or.inl rfl) false
      | blended id => exact credits (Or.inr rfl) true
      | supplied | predicted =>
          refine .ground ?_
          rintro rule ⟨m, id, found, citing, -⟩
          rw [held] at found
          cases found
          simp at citing

theorem bases_source_of_unknown {f : Field} (unknown : r.isKnown f = false)
    : (t.source r f).bases = [] := by
  rw [RuleTable.source, Record.isKnown_eq_false_iff.mp unknown]
  rfl

namespace Derivation

-- -----------------------------------------------------------------------------------------------
-- Enough depth

/-- Nothing is cut off below an unknown field, which has no bases. -/
theorem build_of_unknown {f : Field} (unknown : r.isKnown f = false) {seen : FieldMap Nat}
    (fresh : seen.find? f = none) (depth level : Nat)
    : build t r depth level f seen = (.field f (t.source r f) [], seen.insert f level) := by
  cases depth with
  | zero => simp only [build, fresh]
  | succ depth => rw [build_succ fresh, bases_source_of_unknown unknown, mapThrough]

/-- Steps that agree where an invariant holds, and keep it, map a list alike, by list induction. -/
theorem mapThrough_congr {α β σ : Type} {f g : α → σ → β × σ} (Invariant : σ → Prop)
    {items : List α}
    (same
      : ∀ a ∈ items, ∀ state, Invariant state → f a state = g a state ∧ Invariant (g a state).2)
    {state : σ} (start : Invariant state)
    : mapThrough f items state = mapThrough g items state := by
  induction items generalizing state with
  | nil => rfl
  | cons a rest ih =>
      obtain ⟨first, later⟩ := List.forall_mem_cons.mp same
      obtain ⟨equal, kept⟩ := first state start
      simp only [mapThrough, equal, ih later kept]

/-- A depth that leaves room for all known fields that have not occurred is as good as any greater
one, by induction on it: only known fields have bases, and each of them takes one from both.
-/
theorem build_add {depth : Nat} {seen : FieldMap Nat} (room : (unseen r seen).length ≤ depth)
    (extra level : Nat) (f : Field)
    : build t r (depth + extra) level f seen = build t r depth level f seen := by
  cases occurred : seen.find? f with
  | some first => rw [build_of_seen occurred, build_of_seen occurred]
  | none =>
      cases known : r.isKnown f with
      | false => rw [build_of_unknown known occurred, build_of_unknown known occurred]
      | true =>
          have less := length_unseen_insert known occurred level
          cases depth with
          | zero => omega
          | succ depth =>
              have same
                  : mapThrough (build t r (depth + extra) (level + 1)) (t.source r f).bases
                      (seen.insert f level)
                    = mapThrough (build t r depth (level + 1)) (t.source r f).bases
                      (seen.insert f level) := by
                apply mapThrough_congr fun left => (unseen r left).length ≤ depth
                · intro base _ left room
                  exact ⟨build_add room extra (level + 1) base,
                    Nat.le_trans (length_unseen_build_le depth (level + 1) base left) room⟩
                · omega
              rw [Nat.succ_add, build_succ occurred, build_succ occurred, same]

-- -----------------------------------------------------------------------------------------------
-- Traversals

/-- The levels noted for fields are those of their first places. -/
def Noted (seen : FieldMap Nat) (before : List Visit) : Prop :=
  ∀ f, seen.find? f = (before.find? fun v => v.field = f).map Visit.level

theorem noted_empty : Noted ∅ [] := fun _ => rfl

theorem Noted.occurred {seen : FieldMap Nat} {before : List Visit} (noted : Noted seen before)
    {f : Field} {level : Nat} (found : seen.find? f = some level)
    : ∃ first, before.find? (fun v => v.field = f) = some first ∧ first.level = level := by
  rw [noted] at found
  exact Option.map_eq_some_iff.mp found

theorem Noted.fresh {seen : FieldMap Nat} {before : List Visit} (noted : Noted seen before)
    {f : Field} (absent : seen.find? f = none)
    : ∀ u ∈ before, u.field ≠ f := by
  rw [noted, Option.map_eq_none_iff, List.find?_eq_none] at absent
  simpa using absent

/-- A place of a fresh field is the first one, and its level is noted. -/
theorem Noted.insert {seen : FieldMap Nat} {before : List Visit} (noted : Noted seen before)
    {v : Visit} (absent : seen.find? v.field = none)
    : Noted (seen.insert v.field v.level) (before ++ [v]) := by
  intro f
  rw [FieldMap.find?_insert, List.find?_append, Option.map_or, ← noted]
  by_cases same : f = v.field
  · simp [same, absent]
  · simp [same, Ne.symm same]

/-- A later place of a field is not noted. -/
theorem Noted.again {seen : FieldMap Nat} {before : List Visit} (noted : Noted seen before)
    {v : Visit} {level : Nat} (found : seen.find? v.field = some level)
    : Noted seen (before ++ [v]) := by
  intro f
  rw [List.find?_append, Option.map_or, ← noted]
  by_cases same : f = v.field
  · simp [same, found]
  · simp [Ne.symm same]

/-- The lines of bases, where each is indented by its own way. -/
theorem baseLines_cons (r : Record) (level : Nat) (way : List Bool) (base : Derivation)
    (rest : List Derivation)
    : baseLines r level (stem way) (base :: rest)
      = lines r level (indent (way ++ [rest.isEmpty])) (stem (way ++ [rest.isEmpty])) base
        ++ baseLines r level (stem way) rest := by
  rw [indent_append_singleton, stem_append_singleton]
  cases rest with
  | nil => simp [baseLines, branch, trunk]
  | cons next rest => simp [baseLines, branch, trunk]

/-- Lines tell of places behind those that were told of before, and the levels that are noted in the
end are those of first places.
-/
structure Traverses (t : RuleTable) (r : Record) (before visits : List Visit) (lines : List String)
    (left : FieldMap Nat)
    : Prop where
  tells : Tells t r before visits lines
  noted : Noted left (before ++ visits)

theorem Traverses.append {before visits others : List Visit} {lines more : List String}
    {between left : FieldMap Nat} (first : Traverses t r before visits lines between)
    (second : Traverses t r (before ++ visits) others more left)
    : Traverses t r before (visits ++ others) (lines ++ more) left where
  tells := first.tells.append second.tells
  noted := List.append_assoc before visits others ▸ second.noted

/-- A tree that is built of a field at the end of a way goes through a tree of fields. -/
def IsTraversal (t : RuleTable) (r : Record) (before : List Visit) (way : List Bool) (f : Field)
    (built : Derivation × FieldMap Nat)
    : Prop :=
  ∃ tree : FieldTree,
    tree.field = f
    ∧ Traverses t r before (tree.visits way)
        (lines r (way.length + 1) (indent way) (stem way) built.1) built.2

/-- Trees that are built of fields below the end of a way go through trees of fields. -/
def IsTraversalBelow (t : RuleTable) (r : Record) (before : List Visit) (way : List Bool)
    (fields : List Field) (built : List Derivation × FieldMap Nat)
    : Prop :=
  ∃ trees : List FieldTree,
    trees.map FieldTree.field = fields
    ∧ Traverses t r before (FieldTree.visitsBelow way trees)
        (baseLines r (way.length + 2) (stem way) built.1) built.2

theorem isTraversalBelow_nil {before : List Visit} {left : FieldMap Nat}
    (noted : Noted left before) (way : List Bool)
    : IsTraversalBelow t r before way [] ([], left) :=
  ⟨[], rfl, .nil before, by simpa [FieldTree.visitsBelow] using noted⟩

/-- What is built of one field and then of others goes through them one behind the other. -/
theorem IsTraversal.cons {before : List Visit} {way : List Bool} {f : Field}
    {rest : List Field} {built : Derivation × FieldMap Nat}
    {others : List Derivation × FieldMap Nat}
    (first : IsTraversal t r before (way ++ [rest.isEmpty]) f built)
    (later
      : ∀ visits,
        Noted built.2 (before ++ visits)
        → IsTraversalBelow t r (before ++ visits) way rest others)
    (all : others.1.length = rest.length)
    : IsTraversalBelow t r before way (f :: rest) (built.1 :: others.1, others.2) := by
  obtain ⟨tree, same, traverses⟩ := first
  obtain ⟨trees, fields, below⟩ := later _ traverses.noted
  refine ⟨tree :: trees, by rw [List.map_cons, same, fields], ?_⟩
  have last : trees.isEmpty = rest.isEmpty := by rw [← fields, List.isEmpty_map]
  have last' : others.1.isEmpty = rest.isEmpty := by
    rw [Bool.eq_iff_iff, List.isEmpty_iff_length_eq_zero, List.isEmpty_iff_length_eq_zero, all]
  have deeper : (way ++ [rest.isEmpty]).length + 1 = way.length + 2 := by simp
  rw [deeper] at traverses
  rw [FieldTree.visitsBelow, baseLines_cons, last, last']
  exact traverses.append below

/-- A fresh field is unfolded: its own place comes first, and the traversal of its bases follows. -/
theorem IsTraversalBelow.node {before : List Visit} {seen : FieldMap Nat}
    (noted : Noted seen before) {f : Field} (absent : seen.find? f = none) {way : List Bool}
    {built : List Derivation × FieldMap Nat}
    (below
      : IsTraversalBelow t r (before ++ [{ field := f, way, bases := (t.source r f).bases }]) way
          (t.source r f).bases built)
    : IsTraversal t r before way f (.field f (t.source r f) built.1, built.2) := by
  obtain ⟨trees, fields, tells, left⟩ := below
  refine ⟨.node f trees, rfl, ?_, ?_⟩
  · rw [FieldTree.visits, lines, fields]
    exact .cons (.first (noted.fresh absent) (unfolds_source t r f)) tells
  · rw [FieldTree.visits, fields]
    simpa using left

theorem length_mapThrough {α β σ : Type} (f : α → σ → β × σ) (items : List α) (state : σ)
    : (mapThrough f items state).1.length = items.length := by
  induction items generalizing state with
  | nil => rfl
  | cons a rest ih => simp [mapThrough, ih]

/-- Where every field is traversed from any place with room for it, so are fields one after the
other, by list induction: no traversal takes room from the next one.
-/
theorem isTraversalBelow_mapThrough {depth : Nat} {way : List Bool} {fields : List Field}
    (each
      : ∀ f ∈ fields,
        ∀ seen before last,
          Noted seen before
          → (unseen r seen).length ≤ depth
          → IsTraversal t r before (way ++ [last]) f (build t r depth (way.length + 2) f seen))
    {seen : FieldMap Nat} {before : List Visit} (noted : Noted seen before)
    (room : (unseen r seen).length ≤ depth)
    : IsTraversalBelow t r before way fields
        (mapThrough (build t r depth (way.length + 2)) fields seen) := by
  induction fields generalizing seen before with
  | nil => exact isTraversalBelow_nil noted way
  | cons f rest ih =>
      obtain ⟨first, later⟩ := List.forall_mem_cons.mp each
      refine (first seen before rest.isEmpty noted room).cons (fun visits noted => ?_)
        (length_mapThrough _ rest _)
      exact ih later noted (Nat.le_trans (length_unseen_build_le depth _ f seen) room)

/-- With room for all known fields that have not occurred, what is built of a field goes through a
tree, by induction on the depth: a fresh field that is known leaves room for its bases.
-/
theorem isTraversal_build {depth : Nat} {f : Field} {seen : FieldMap Nat} {before : List Visit}
    (noted : Noted seen before) (room : (unseen r seen).length ≤ depth) (way : List Bool)
    : IsTraversal t r before way f (build t r depth (way.length + 1) f seen) := by
  cases occurred : seen.find? f with
  | some level =>
      obtain ⟨first, found, rfl⟩ := noted.occurred occurred
      rw [build_of_seen occurred]
      refine ⟨.node f [], rfl, ?_, noted.again (v := { field := f, way, bases := [] }) occurred⟩
      exact .cons (.again found rfl) (.nil _)
  | none =>
      have marked : Noted (seen.insert f (way.length + 1))
          (before ++ [{ field := f, way, bases := (t.source r f).bases }]) :=
        noted.insert (v := { field := f, way, bases := (t.source r f).bases }) occurred
      cases known : r.isKnown f with
      | false =>
          have below
              : IsTraversalBelow t r
                  (before ++ [{ field := f, way, bases := (t.source r f).bases }]) way
                  (t.source r f).bases ([], seen.insert f (way.length + 1)) := by
            rw [bases_source_of_unknown known] at marked ⊢
            exact isTraversalBelow_nil marked way
          rw [build_of_unknown known occurred]
          exact below.node noted occurred
      | true =>
          have less := length_unseen_insert known occurred (way.length + 1)
          cases depth with
          | zero => omega
          | succ depth =>
              rw [build_succ occurred]
              refine (isTraversalBelow_mapThrough (fun base _ seen before last noted room => ?_)
                marked (by omega)).node noted occurred
              have deeper : (way ++ [last]).length + 1 = way.length + 2 := by simp
              exact deeper ▸ isTraversal_build noted room (way ++ [last])

end Derivation

end

end MeasureSheet
