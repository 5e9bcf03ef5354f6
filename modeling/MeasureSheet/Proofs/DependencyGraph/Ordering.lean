import MeasureSheet.DependencyGraph.EvaluationOrder
import MeasureSheet.Proofs.FieldMap.Entries
import MeasureSheet.Proofs.DependencyGraph.Reachability

/-! Evaluation orders. Placing ready fields keeps count of the parents that are missing, so every
field stands behind its parents, and a graph without cycles is ordered completely.
-/

namespace MeasureSheet.DependencyGraph

variable {g : DependencyGraph}

/-- Every field of the list stands behind all fields that it is derived from. -/
def BasesFirst (g : DependencyGraph) (order : List Field) : Prop :=
  ∀ f ∈ order, ∀ base, g.Derives base f → order.idxOf base < order.idxOf f

theorem BasesFirst.base_mem {order : List Field} (basesFirst : g.BasesFirst order) {f base : Field}
    (member : f ∈ order) (step : g.Derives base f)
    : base ∈ order := by
  have position := basesFirst f member base step
  have bound := List.idxOf_lt_length_of_mem member
  exact List.idxOf_lt_length_iff.mp (Nat.lt_trans position bound)

/-- Positions go up along derivations, so no listed field is derived from itself. -/
theorem BasesFirst.before_of_derivesFar {order : List Field} (basesFirst : g.BasesFirst order)
    {f base : Field} (far : g.DerivesFar base f) (member : f ∈ order)
    : base ∈ order ∧ order.idxOf base < order.idxOf f := by
  induction far with
  | single step => exact ⟨basesFirst.base_mem member step, basesFirst _ member _ step⟩
  | tail _ step ih =>
      obtain ⟨inside, before⟩ := ih (basesFirst.base_mem member step)
      exact ⟨inside, Nat.lt_trans before (basesFirst _ member _ step)⟩

/-- No cycle leads to a listed field: its fields would be listed too, each before itself. -/
theorem BasesFirst.not_blocked {order : List Field} (basesFirst : g.BasesFirst order) {f : Field}
    (member : f ∈ order)
    : ¬ g.Blocked f := by
  rintro ⟨hub, around, path⟩
  have inside : hub ∈ order :=
    path.mem_of_mem (fun d step target => basesFirst.base_mem target step) member
  exact Nat.lt_irrefl _ (basesFirst.before_of_derivesFar around inside).2

/-- A field that is not listed yet can be appended once all its bases are listed. -/
theorem BasesFirst.append {order : List Field} (basesFirst : g.BasesFirst order) {f : Field}
    (fresh : f ∉ order) (bases : ∀ base, g.Derives base f → base ∈ order)
    : g.BasesFirst (order ++ [f]) := by
  intro target member base step
  rcases List.mem_append.mp member with old | last
  · have baseOld := basesFirst.base_mem old step
    rw [List.idxOf_append, if_pos baseOld, List.idxOf_append, if_pos old]
    exact basesFirst target old base step
  · obtain rfl := List.mem_singleton.mp last
    have baseOld := bases base step
    have bound := List.idxOf_lt_length_of_mem baseOld
    rw [List.idxOf_append, if_pos baseOld, List.idxOf_append, if_neg fresh]
    omega

-- -----------------------------------------------------------------------------------------------
-- Ascending lists

theorem mem_foldl_insertAscending {fields ready : List Field} {f : Field}
    : f ∈ fields.foldl (fun ready child => Field.insertAscending child ready) ready
      ↔ f ∈ fields ∨ f ∈ ready := by
  induction fields generalizing ready with
  | nil => simp
  | cons child rest ih =>
      rw [List.foldl_cons, ih, Field.mem_insertAscending, List.mem_cons]
      exact ⟨by grind, by grind⟩

theorem pairwise_foldl_insertAscending (fields : List Field) {ready : List Field}
    (ascending : ready.Pairwise (· < ·))
    : (fields.foldl (fun ready child => Field.insertAscending child ready) ready).Pairwise
        (· < ·) := by
  induction fields generalizing ready with
  | nil => exact ascending
  | cons child rest ih => exact ih (Field.pairwise_insertAscending ascending)

-- -----------------------------------------------------------------------------------------------
-- The parents that are missing

/-- How many parents of a field are not placed. -/
def missing (g : DependencyGraph) (placed : List Field) (f : Field) : Nat :=
  (g.parents f).countP fun parent => parent ∉ placed

theorem missing_eq_zero_iff {placed : List Field} {f : Field}
    : g.missing placed f = 0 ↔ ∀ base, g.Derives base f → base ∈ placed := by
  unfold missing
  rw [List.countP_eq_zero]
  constructor
  · intro none base step
    simpa using none base (mem_parents.mpr step)
  · intro all base member
    simpa using all base (mem_parents.mp member)

/-- Placing a field leaves one parent less to wait for exactly to the children of the field. -/
theorem missing_eq_add_count {placed : List Field} {f : Field} (fresh : f ∉ placed)
    (target : Field)
    : g.missing placed target
      = g.missing (placed ++ [f]) target + (g.children f).count target := by
  unfold missing
  by_cases child : target ∈ g.children f
  · have parent : f ∈ g.parents target := mem_parents.mpr (mem_children.mp child)
    have perm := List.perm_cons_erase parent
    have others : f ∉ (g.parents target).erase f :=
      fun member => (List.Nodup.not_mem_erase (g.nodup_parents target)) member
    have same : ((g.parents target).erase f).countP (fun parent => parent ∉ placed ++ [f])
        = ((g.parents target).erase f).countP (fun parent => parent ∉ placed) := by
      apply List.countP_congr
      intro parent member
      have different : parent ≠ f := fun h => others (h ▸ member)
      simp [different]
    rw [perm.countP_eq, perm.countP_eq, List.countP_cons_of_pos (by simpa using fresh),
      List.countP_cons_of_neg (by simp), same,
      List.count_eq_one_of_mem (g.nodup_children f) child]
  · rw [List.count_eq_zero_of_not_mem child, Nat.add_zero]
    apply List.countP_congr
    intro parent member
    have different : parent ≠ f := by
      rintro rfl
      exact child (mem_children.mpr (mem_parents.mp member))
    simp [different]

theorem missing_append {placed : List Field} {f : Field} (fresh : f ∉ placed) (target : Field)
    : g.missing (placed ++ [f]) target
      = if target ∈ g.children f then g.missing placed target - 1 else g.missing placed target := by
  rw [missing_eq_add_count fresh]
  split
  next child => rw [List.count_eq_one_of_mem (g.nodup_children f) child, Nat.add_sub_cancel]
  next notChild => rw [List.count_eq_zero_of_not_mem notChild, Nat.add_zero]

-- -----------------------------------------------------------------------------------------------
-- Progress

/-- Progress that agrees with the graph: the counters tell the missing parents, the fields that are
ready are those that miss none and are not placed, and the placed ones stand behind their bases.
-/
structure Progress.Sound (g : DependencyGraph) (p : Progress) : Prop where
  waiting : ∀ f ∈ g.fields, p.waiting.find? f = some (g.missing p.placed f)
  ready : ∀ f, f ∈ p.ready ↔ f ∈ g.fields ∧ f ∉ p.placed ∧ g.missing p.placed f = 0
  ascending : p.ready.Pairwise (· < ·)
  unique : p.placed.Nodup
  inside : p.placed ⊆ g.fields
  ordered : g.BasesFirst p.placed

theorem Progress.sound_start (g : DependencyGraph) : (Progress.start g).Sound g where
  waiting := by
    intro f member
    apply FieldMap.find?_eq_some_iff.mpr
    simp [start, missing, member]
  ready := by
    intro f
    have none : g.missing [] f = (g.parents f).length := by simp [missing]
    simp [start, none, List.isEmpty_iff]
  ascending := (Field.pairwise_ascending _).filter _
  unique := List.nodup_nil
  inside := List.nil_subset _
  ordered := fun f member => absurd member List.not_mem_nil

/-- The children of a field that wait for nothing once it is placed. -/
def freed (g : DependencyGraph) (p : Progress) (f : Field) : List Field :=
  (g.children f).filter fun child => g.missing (p.placed ++ [f]) child = 0

theorem mem_freed {p : Progress} {f target : Field}
    : target ∈ g.freed p f ↔ g.Derives f target ∧ g.missing (p.placed ++ [f]) target = 0 := by
  rw [freed, List.mem_filter, mem_children, decide_eq_true_eq, Derives]

namespace Progress

/-- The fields that a placement adds to those that are ready, by the counters after it. -/
def entering (g : DependencyGraph) (p : Progress) (f : Field) : List Field :=
  (g.children f).filter fun child => (p.place g f []).waiting.find? child = some 0

/-- A field whose turn it is: all its bases are placed, and it precedes all that are ready too. -/
structure IsNext (g : DependencyGraph) (p : Progress) (f : Field) (ready : List Field) : Prop where
  inFields : f ∈ g.fields
  fresh : f ∉ p.placed
  bases : ∀ base, g.Derives base f → base ∈ p.placed
  precedes : ∀ later ∈ ready, f < later
  ascending : ready.Pairwise (· < ·)

theorem Sound.isNext {p : Progress} (sound : p.Sound g) {f : Field} {ready : List Field}
    (first : p.ready = f :: ready)
    : p.IsNext g f ready := by
  obtain ⟨inFields, fresh, complete⟩ := (sound.ready f).mp (first ▸ List.mem_cons_self)
  obtain ⟨precedes, ascending⟩ := List.pairwise_cons.mp (first ▸ sound.ascending)
  exact ⟨inFields, fresh, missing_eq_zero_iff.mp complete, precedes, ascending⟩

/-- The counters after a placement tell the parents that are missing then. -/
theorem Sound.waiting_place {p : Progress} (sound : p.Sound g) {f : Field} (fresh : f ∉ p.placed)
    (ready : List Field) {target : Field} (member : target ∈ g.fields)
    : (p.place g f ready).waiting.find? target = some (g.missing (p.placed ++ [f]) target) := by
  simp only [place, FieldMap.find?_map, sound.waiting target member, Option.map_some,
    missing_append fresh]

theorem ready_place (p : Progress) (f : Field) (ready : List Field)
    : (p.place g f ready).ready
      = (p.entering g f).foldl (fun ready child => Field.insertAscending child ready) ready :=
  rfl

theorem Sound.entering_eq_freed {p : Progress} (sound : p.Sound g) {f : Field}
    (fresh : f ∉ p.placed)
    : p.entering g f = g.freed p f := by
  apply List.filter_congr
  intro child member
  have inFields := Derives.target_mem_fields (mem_children.mp member)
  simp [sound.waiting_place fresh [] inFields]

/-- A field becomes ready exactly when its last missing parent is placed. -/
theorem Sound.mem_ready_place {p : Progress} (sound : p.Sound g) {f : Field} {ready : List Field}
    (next : p.ready = f :: ready) (target : Field)
    : target ∈ (p.place g f ready).ready
      ↔ target ∈ g.fields
        ∧ target ∉ p.placed ++ [f]
        ∧ g.missing (p.placed ++ [f]) target = 0 := by
  obtain ⟨-, fresh, bases, precedes, -⟩ := sound.isNext next
  rw [ready_place, sound.entering_eq_freed fresh, mem_foldl_insertAscending, mem_freed,
    List.mem_append, List.mem_singleton]
  constructor
  · intro h
    rcases h with ⟨step, free⟩ | waiting
    -- What was placed before had all its bases then, and the field itself is not its own base.
    · refine ⟨step.target_mem_fields, ?_, free⟩
      intro h
      rcases h with old | rfl
      · exact fresh (sound.ordered.base_mem old step)
      · exact fresh (bases _ step)
    · obtain ⟨member, notPlaced, free⟩ := (sound.ready target).mp
        (next ▸ List.mem_cons_of_mem f waiting)
      have different : target ≠ f := (Field.ne_of_lt (precedes target waiting)).symm
      refine ⟨member, by simp [notPlaced, different], ?_⟩
      rw [missing_append fresh, free, Nat.zero_sub, ite_self]
  · intro h
    obtain ⟨member, notPlaced, free⟩ := h
    by_cases child : target ∈ g.children f
    · exact Or.inl ⟨mem_children.mp child, free⟩
    · rw [missing_append fresh, if_neg child] at free
      have waiting := (sound.ready target).mpr ⟨member, fun old => notPlaced (Or.inl old), free⟩
      rw [next, List.mem_cons] at waiting
      exact Or.inr (waiting.resolve_left fun same => notPlaced (Or.inr same))

/-- Placing the first ready field keeps progress sound: it is behind all its bases. -/
theorem Sound.place {p : Progress} (sound : p.Sound g) {f : Field} {ready : List Field}
    (next : p.ready = f :: ready)
    : (p.place g f ready).Sound g := by
  obtain ⟨inFields, fresh, bases, -, ascending⟩ := sound.isNext next
  have placed : (p.place g f ready).placed = p.placed ++ [f] := rfl
  refine {
    waiting := fun target member => sound.waiting_place fresh ready member
    ready := sound.mem_ready_place next
    ascending := ?_
    unique := ?_
    inside := ?_
    ordered := sound.ordered.append fresh bases
  }
  · rw [ready_place]
    exact pairwise_foldl_insertAscending _ ascending
  · rw [placed]
    exact List.nodup_append.mpr ⟨sound.unique, List.nodup_singleton f, fun x old y last => by
      rintro rfl
      exact fresh (List.mem_singleton.mp last ▸ old)⟩
  · rw [placed]
    exact List.append_subset.mpr ⟨sound.inside, by simpa using inFields⟩

/-- A run keeps progress sound, and ends with nothing ready or after its full number of steps. -/
theorem Sound.run {p : Progress} (sound : p.Sound g) (steps : Nat)
    : (p.run g steps).Sound g
      ∧ ((p.run g steps).ready = []
          ∨ (p.run g steps).placed.length = p.placed.length + steps) := by
  induction steps generalizing p with
  | zero => exact ⟨sound, Or.inr rfl⟩
  | succ steps ih =>
      unfold Progress.run
      cases next : p.ready with
      | nil => exact ⟨sound, Or.inl next⟩
      | cons f ready =>
          obtain ⟨later, ending⟩ := ih (sound.place next)
          dsimp only
          refine ⟨later, ending.imp_right fun count => ?_⟩
          have one : (p.place g f ready).placed.length = p.placed.length + 1 := by
            simp [Progress.place]
          omega

end Progress

-- -----------------------------------------------------------------------------------------------
-- The final state

theorem sound_ordering (g : DependencyGraph) : g.ordering.Sound g :=
  ((Progress.sound_start g).run _).1

/-- At the end no field is ready: as many steps as there are fields would have placed them all. -/
theorem ready_ordering (g : DependencyGraph) : g.ordering.ready = [] := by
  obtain ⟨sound, empty | count⟩ := (Progress.sound_start g).run g.fields.length
  · exact empty
  · apply List.eq_nil_iff_forall_not_mem.mpr
    intro f member
    obtain ⟨inFields, fresh, -⟩ := (sound.ready f).mp member
    have bound := (List.nodup_cons.mpr ⟨fresh, sound.unique⟩).length_le_of_subset
      (List.cons_subset.mpr ⟨inFields, sound.inside⟩)
    simp only [Progress.start, List.length_nil, List.length_cons] at count bound
    omega

/-- A field whose bases are all placed at the end is placed itself. -/
theorem mem_placed_ordering {f : Field} (inFields : f ∈ g.fields)
    (bases : ∀ base, g.Derives base f → base ∈ g.ordering.placed)
    : f ∈ g.ordering.placed := by
  by_contra fresh
  have ready := (g.sound_ordering.ready f).mpr ⟨inFields, fresh, missing_eq_zero_iff.mpr bases⟩
  rw [g.ready_ordering] at ready
  exact absurd ready List.not_mem_nil

/-- The fields that are placed at the end are those to which no cycle leads. -/
theorem mem_placed_ordering_iff {f : Field} (inFields : f ∈ g.fields)
    : f ∈ g.ordering.placed ↔ ¬ g.Blocked f := by
  constructor
  · exact g.sound_ordering.ordered.not_blocked
  · intro free
    induction acc_of_not_blocked free with
    | intro f _ ih =>
        apply mem_placed_ordering inFields
        intro base step
        exact ih base step step.base_mem_fields fun blocked => free (blocked.step step)

theorem evaluationOrder_eq_ok_iff {order : List Field}
    : g.evaluationOrder = .ok order
      ↔ g.ordering.placed.length = g.fields.length ∧ g.ordering.placed = order := by
  unfold evaluationOrder
  by_cases complete : g.ordering.placed.length = g.fields.length <;> simp [complete]

theorem evaluationOrder_eq_error_iff {e : OrderingFailure}
    : g.evaluationOrder = .error e
      ↔ g.ordering.placed.length ≠ g.fields.length
        ∧ g.fields.filter (fun f => (g.ordering.waiting.find? f).any fun n => 0 < n)
          = e.unordered := by
  obtain ⟨unordered⟩ := e
  unfold evaluationOrder
  by_cases complete : g.ordering.placed.length = g.fields.length <;> simp [complete]

/-- An order that is found holds every field once, behind the fields that it is derived from. -/
theorem evaluationOrder_spec {order : List Field} (found : g.evaluationOrder = .ok order)
    : order.Perm g.fields ∧ g.BasesFirst order := by
  have sound := g.sound_ordering
  obtain ⟨complete, rfl⟩ := evaluationOrder_eq_ok_iff.mp found
  have perm := (List.subperm_of_subset sound.unique sound.inside).perm_of_length_le
    (Nat.le_of_eq complete.symm)
  exact ⟨perm, sound.ordered⟩

/-- A graph without cycles has an order: as no field is blocked, every field is placed. -/
theorem Acyclic.exists_evaluationOrder (acyclic : g.Acyclic)
    : ∃ order, g.evaluationOrder = .ok order := by
  have sound := g.sound_ordering
  have perm := (List.perm_ext_iff_of_nodup sound.unique g.nodup_fields).mpr fun f =>
    ⟨fun member => sound.inside member, fun member =>
      (mem_placed_ordering_iff member).mpr acyclic.not_blocked⟩
  exact ⟨g.ordering.placed, evaluationOrder_eq_ok_iff.mpr ⟨perm.length_eq, rfl⟩⟩

/-- Only a graph without cycles has an order of all its fields. -/
theorem BasesFirst.acyclic {order : List Field} (basesFirst : g.BasesFirst order)
    (complete : g.fields ⊆ order)
    : g.Acyclic := by
  intro f around
  obtain ⟨child, step, -⟩ := Relation.TransGen.head'_iff.mp around
  exact basesFirst.not_blocked (complete step.base_mem_fields) ⟨f, around, .refl⟩

/-- Without cycles and only then there is an order of all fields. -/
theorem exists_evaluationOrder_iff : (∃ order, g.evaluationOrder = .ok order) ↔ g.Acyclic := by
  constructor
  · rintro ⟨order, found⟩
    obtain ⟨perm, basesFirst⟩ := evaluationOrder_spec found
    exact basesFirst.acyclic perm.symm.subset
  · exact Acyclic.exists_evaluationOrder

end MeasureSheet.DependencyGraph
