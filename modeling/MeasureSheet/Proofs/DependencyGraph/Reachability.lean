import Mathlib.Data.List.Chain
import Mathlib.Data.List.Rotate
import Mathlib.Order.WellFoundedSet
import MeasureSheet.DependencyGraph

/-! Reachability in dependency graphs: which fields are derived from which over any number of rules,
what a cycle is, and induction along the dependencies of a graph that has none.
-/

namespace MeasureSheet.DependencyGraph

variable {g : DependencyGraph}

/-- The target is derived from the base by one rule. -/
def Derives (g : DependencyGraph) (base target : Field) : Prop :=
  { base, target } ∈ g.dependencies

/-- The target is derived from the base by one rule or several in a row. -/
def DerivesFar (g : DependencyGraph) : Field → Field → Prop :=
  Relation.TransGen g.Derives

/-- The field can be reached from the start by following rules, or is the start. -/
def Reaches (g : DependencyGraph) : Field → Field → Prop :=
  Relation.ReflTransGen g.Derives

/-- No field is derived from itself, over however many rules. -/
def Acyclic (g : DependencyGraph) : Prop :=
  ∀ f, ¬ g.DerivesFar f f

theorem Derives.base_mem_fields {base target : Field} (step : g.Derives base target)
    : base ∈ g.fields :=
  mem_fields.mpr ⟨_, step, Or.inl rfl⟩

theorem Derives.target_mem_fields {base target : Field} (step : g.Derives base target)
    : target ∈ g.fields :=
  mem_fields.mpr ⟨_, step, Or.inr rfl⟩

theorem nodup_fields (g : DependencyGraph) : g.fields.Nodup :=
  (Field.pairwise_ascending _).imp Field.ne_of_lt

theorem nodup_parents (g : DependencyGraph) (f : Field) : (g.parents f).Nodup :=
  (Field.pairwise_ascending _).imp Field.ne_of_lt

theorem nodup_children (g : DependencyGraph) (f : Field) : (g.children f).Nodup :=
  (Field.pairwise_ascending _).imp Field.ne_of_lt

/-- A graph with fewer dependencies than an acyclic one is acyclic. -/
theorem Acyclic.mono {h : DependencyGraph} (acyclic : g.Acyclic)
    (fewer : h.dependencies ⊆ g.dependencies)
    : h.Acyclic :=
  have steps : h.Derives ≤ g.Derives := fun _ _ step => fewer step
  fun f far => acyclic f (Relation.TransGen.mono steps f f far)

theorem Reaches.mono {h : DependencyGraph} {f f' : Field} (path : h.Reaches f f')
    (fewer : h.dependencies ⊆ g.dependencies)
    : g.Reaches f f' :=
  have steps : h.Derives ≤ g.Derives := fun _ _ step => fewer step
  Relation.ReflTransGen.mono steps f f' path

/-- Fields that have the base of every dependency with its target have all from which they are
reached, by induction from the end of the path.
-/
theorem Reaches.mem_of_mem {fields : List Field}
    (closed : ∀ d ∈ g.dependencies, d.target ∈ fields → d.base ∈ fields) {f f' : Field}
    (path : g.Reaches f f') (member : f' ∈ fields)
    : f ∈ fields := by
  induction path using Relation.ReflTransGen.head_induction_on with
  | refl => exact member
  | head step _ ih => exact closed _ step ih

/-- The field lies on a cycle, or is derived from a field that does. -/
def Blocked (g : DependencyGraph) (f : Field) : Prop :=
  ∃ hub, g.DerivesFar hub hub ∧ g.Reaches hub f

theorem Blocked.step {base target : Field} (blocked : g.Blocked base)
    (step : g.Derives base target)
    : g.Blocked target :=
  blocked.imp fun _ hub => ⟨hub.1, hub.2.tail step⟩

theorem Blocked.mem_fields {f : Field} (blocked : g.Blocked f) : f ∈ g.fields := by
  obtain ⟨hub, around, path⟩ := blocked
  cases path with
  | refl =>
      obtain ⟨child, step, -⟩ := Relation.TransGen.head'_iff.mp around
      exact step.base_mem_fields
  | tail _ step => exact step.target_mem_fields

/-- Going back from a field that is not blocked comes to an end: nothing on the way is its own base,
and only finitely many fields have a place on it.
-/
theorem acc_of_not_blocked {f : Field} (free : ¬ g.Blocked f) : Acc g.Derives f := by
  have order : IsStrictOrder Field fun base target =>
      g.DerivesFar base target ∧ ¬ g.Blocked target :=
    {
      irrefl := fun f around => around.2 ⟨f, around.1, .refl⟩
      trans := fun _ _ _ first second => ⟨first.1.trans second.1, second.2⟩
    }
  have fields : {f | f ∈ g.fields}.WellFoundedOn fun base target =>
      g.DerivesFar base target ∧ ¬ g.Blocked target :=
    (List.finite_toSet g.fields).wellFoundedOn
  have onFields : ∀ f ∈ g.fields, ¬ g.Blocked f → Acc g.Derives f := by
    intro f member
    refine fields.induction (P := fun f => ¬ g.Blocked f → Acc g.Derives f) member ?_
    intro target _ ih freeTarget
    refine Acc.intro target fun base step => ?_
    exact ih base step.base_mem_fields ⟨.single step, freeTarget⟩ fun h => freeTarget (h.step step)
  exact Acc.intro f fun base step => onFields base step.base_mem_fields fun h => free (h.step step)

theorem Acyclic.not_blocked (acyclic : g.Acyclic) {f : Field} : ¬ g.Blocked f :=
  fun blocked => blocked.elim fun hub h => acyclic hub h.1

/-- The dependencies of an acyclic graph are well-founded, since they block no field. -/
theorem Acyclic.wellFounded (acyclic : g.Acyclic) : WellFounded g.Derives :=
  ⟨fun _ => acc_of_not_blocked acyclic.not_blocked⟩

-- -----------------------------------------------------------------------------------------------
-- Cycles

/-- Dependencies of the graph that lead in a circle through different fields: each leads to the base
of the next one, and the last to the base of the first.
-/
structure SimpleCycle (g : DependencyGraph) (cycle : List Dependency) : Prop where
  nonempty : cycle ≠ []
  dependencies : ∀ d ∈ cycle, d ∈ g.dependencies
  linked : cycle.map (·.target) = (cycle.map (·.base)).rotate 1
  simple : (cycle.map (·.base)).Nodup

/-- Linked dependencies make a chain of their bases up to the last target, by list induction. -/
theorem isChain_of_linked {cycle : List Dependency} {base last : Field} {between : List Field}
    (dependencies : ∀ d ∈ cycle, d ∈ g.dependencies)
    (bases : cycle.map (·.base) = base :: between)
    (targets : cycle.map (·.target) = between ++ [last])
    : List.IsChain g.Derives (base :: (between ++ [last])) := by
  induction cycle generalizing base between with
  | nil => simp at bases
  | cons d rest ih =>
      simp only [List.map_cons, List.cons.injEq] at bases
      obtain ⟨rfl, bases⟩ := bases
      have first : g.Derives d.base d.target := dependencies d List.mem_cons_self
      have later := fun e member => dependencies e (List.mem_cons_of_mem d member)
      cases between with
      | nil =>
          have single : rest = [] := by simpa using bases
          obtain rfl : d.target = last := by simpa [single] using targets
          exact List.isChain_pair.mpr first
      | cons next between =>
          simp only [List.map_cons, List.cons_append, List.cons.injEq] at targets
          obtain ⟨rfl, targets⟩ := targets
          exact List.isChain_cons_cons.mpr ⟨first, ih later bases targets⟩

/-- Every field of a cycle is derived from its first field, and the first field from it. -/
theorem SimpleCycle.exists_hub {cycle : List Dependency} (loop : g.SimpleCycle cycle)
    : ∃ hub, g.DerivesFar hub hub
        ∧ ∀ d ∈ cycle, g.Reaches hub d.base ∧ g.Reaches d.target hub := by
  obtain ⟨hub, between, bases⟩ : ∃ hub between, cycle.map (·.base) = hub :: between :=
    List.exists_cons_of_ne_nil (by simpa using loop.nonempty)
  have targets : cycle.map (·.target) = between ++ [hub] := by
    rw [loop.linked, bases, List.rotate_cons_succ, List.rotate_zero]
  have far : (hub :: (between ++ [hub])).Pairwise g.DerivesFar :=
    List.IsChain.pairwise (R := Relation.TransGen g.Derives)
      ((isChain_of_linked loop.dependencies bases targets).imp
        fun _ _ step => Relation.TransGen.single step)
  obtain ⟨fromHub, rest⟩ := List.pairwise_cons.mp far
  have toHub := (List.pairwise_append.mp rest).2.2
  refine ⟨hub, fromHub hub (by simp), fun d member => ⟨?_, ?_⟩⟩
  · have base : d.base ∈ hub :: between := bases ▸ List.mem_map_of_mem member
    rcases List.mem_cons.mp base with same | inside
    · rw [same]
      exact Relation.ReflTransGen.refl
    · exact (fromHub _ (List.mem_append_left _ inside)).to_reflTransGen
  · have target : d.target ∈ between ++ [hub] := targets ▸ List.mem_map_of_mem member
    rcases List.mem_append.mp target with inside | last
    · exact (toHub _ inside hub (by simp)).to_reflTransGen
    · rw [List.mem_singleton.mp last]
      exact Relation.ReflTransGen.refl

/-- Along a cycle the base of each of its dependencies is reached from the target. -/
theorem SimpleCycle.reaches_base {cycle : List Dependency} (loop : g.SimpleCycle cycle)
    {d : Dependency} (member : d ∈ cycle)
    : g.Reaches d.target d.base := by
  obtain ⟨hub, -, spokes⟩ := loop.exists_hub
  exact (spokes d member).2.trans (spokes d member).1

theorem SimpleCycle.not_acyclic {cycle : List Dependency} (loop : g.SimpleCycle cycle)
    : ¬ g.Acyclic := by
  obtain ⟨hub, around, -⟩ := loop.exists_hub
  exact fun acyclic => acyclic hub around

/-- A cycle that derives no field directly from itself has dependencies with different targets, so
besides each of its dependencies there is one with another target.
-/
theorem SimpleCycle.exists_other_target {cycle : List Dependency} (loop : g.SimpleCycle cycle)
    {d : Dependency} (member : d ∈ cycle) (different : d.base ≠ d.target)
    : ∃ e ∈ cycle, e.target ≠ d.target := by
  have base : d.base ∈ cycle.map (·.target) := by
    rw [loop.linked, List.mem_rotate]
    exact List.mem_map_of_mem member
  obtain ⟨e, inside, same⟩ := List.mem_map.mp base
  exact ⟨e, inside, same ▸ different⟩

end MeasureSheet.DependencyGraph
