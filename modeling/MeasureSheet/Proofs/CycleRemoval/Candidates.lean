import MeasureSheet.CycleRemoval
import MeasureSheet.Proofs.DependencyGraph.Reachability
import MeasureSheet.Proofs.RuleBook.Filing

/-! The candidates of a cycle: the rules of the book that realize its dependencies, one for each
number, and the one among them that gives way to all others.
-/

namespace MeasureSheet

/-- The rule derives the target of the dependency and takes its base as an input. -/
def Rule.Realizes (r : Rule) (d : Dependency) : Prop :=
  r.target = d.target ∧ d.base ∈ r.inputs

theorem Rule.dependsOn_iff {r : Rule} {f : Field} : r.dependsOn f ↔ f ∈ r.inputs := by
  simp [dependsOn, Relation.dependsOn, inputs]

theorem Rule.mem_dependencies {r : Rule} {d : Dependency} : d ∈ r.dependencies ↔ r.Realizes d := by
  obtain ⟨base, target⟩ := d
  simp only [dependencies, List.mem_map, Dependency.mk.injEq, Realizes]
  constructor
  · intro h
    obtain ⟨input, member, rfl, rfl⟩ := h
    exact ⟨rfl, member⟩
  · intro h
    obtain ⟨rfl, member⟩ := h
    exact ⟨base, member, rfl, rfl⟩

namespace RuleBook

/-- The graph of a book has the dependencies that its rules realize, and no others. -/
theorem mem_dependencies_graph {book : RuleBook} {d : Dependency}
    : d ∈ book.graph.dependencies ↔ ∃ r ∈ book.rules, r.Realizes d := by
  simp only [graph, List.mem_flatMap, Rule.mem_dependencies]

theorem dependencies_graph_subset {book rest : RuleBook} (fewer : rest.rules ⊆ book.rules)
    : rest.graph.dependencies ⊆ book.graph.dependencies := by
  intro d member
  obtain ⟨r, inside, realizes⟩ := mem_dependencies_graph.mp member
  exact mem_dependencies_graph.mpr ⟨r, fewer inside, realizes⟩

theorem derives_of_mem_inputs {book : RuleBook} {r : Rule} (member : r ∈ book.rules) {base : Field}
    (input : base ∈ r.inputs)
    : book.graph.Derives base r.target :=
  mem_dependencies_graph.mpr ⟨r, member, rfl, input⟩

/-- Every target of a book is a field of its graph, since no rule is without inputs. -/
theorem target_mem_fields {book : RuleBook} {r : Rule} (member : r ∈ book.rules)
    : r.target ∈ book.graph.fields := by
  obtain ⟨base, input⟩ := List.exists_mem_of_ne_nil _ r.relation.inputs_ne_nil
  exact (derives_of_mem_inputs member input).target_mem_fields

end RuleBook

-- -----------------------------------------------------------------------------------------------
-- One rule for each number

theorem distinctById_append_singleton (rules : List Rule) (r : Rule)
    : distinctById (rules ++ [r])
      = if (distinctById rules).any (·.id = r.id) then distinctById rules
        else distinctById rules ++ [r] := by
  rw [distinctById, List.foldl_append]
  rfl

theorem distinctById_subset (rules : List Rule) : distinctById rules ⊆ rules := by
  induction rules using List.reverseRecOn with
  | nil => exact List.Subset.refl []
  | append_singleton rules r ih =>
      rw [distinctById_append_singleton]
      split
      · exact List.subset_append_of_subset_left [r] ih
      · exact List.append_subset.mpr
          ⟨List.subset_append_of_subset_left [r] ih, List.subset_append_right rules [r]⟩

/-- Every number of the list keeps a rule, by induction from the end of the list. -/
theorem exists_mem_distinctById {rules : List Rule} {r : Rule} (member : r ∈ rules)
    : ∃ s ∈ distinctById rules, s.id = r.id := by
  induction rules using List.reverseRecOn with
  | nil => exact absurd member List.not_mem_nil
  | append_singleton rules last ih =>
      rw [distinctById_append_singleton]
      split
      next found =>
        rcases List.mem_append.mp member with old | new
        · exact ih old
        · obtain rfl := List.mem_singleton.mp new
          simpa using found
      next =>
        rcases List.mem_append.mp member with old | new
        · obtain ⟨s, inside, same⟩ := ih old
          exact ⟨s, List.mem_append_left [last] inside, same⟩
        · exact ⟨last, by simp, by rw [List.mem_singleton.mp new]⟩

theorem nodup_distinctById (rules : List Rule) : ((distinctById rules).map (·.id)).Nodup := by
  induction rules using List.reverseRecOn with
  | nil => exact List.nodup_nil
  | append_singleton rules last ih =>
      rw [distinctById_append_singleton]
      split
      · exact ih
      next fresh =>
        rw [List.map_append, List.nodup_append]
        refine ⟨ih, List.nodup_singleton _, ?_⟩
        intro id old id' new same
        obtain ⟨s, inside, rfl⟩ := List.mem_map.mp old
        obtain rfl : id' = last.id := by simpa using new
        exact fresh (List.any_eq_true.mpr ⟨s, inside, by simpa using same⟩)

namespace RuleBook

variable {book : RuleBook} {cycle : List Dependency}

theorem nodup_rulesAlong (book : RuleBook) (cycle : List Dependency)
    : ((book.rulesAlong cycle).map (·.id)).Nodup :=
  nodup_distinctById _

/-- Candidates are rules of the book that realize a dependency of the cycle. -/
theorem Filed.realizes_of_mem_rulesAlong (filed : book.Filed) {r : Rule}
    (candidate : r ∈ book.rulesAlong cycle)
    : r ∈ book.rules ∧ ∃ d ∈ cycle, r.Realizes d := by
  obtain ⟨d, inCycle, found⟩ := List.mem_flatMap.mp (distinctById_subset _ candidate)
  obtain ⟨underTarget, dependsOn⟩ := List.mem_filter.mp found
  obtain ⟨member, target⟩ := filed.mem_rulesFor.mp underTarget
  exact ⟨member, d, inCycle, target, Rule.dependsOn_iff.mp dependsOn⟩

/-- Every rule of the book that realizes a dependency of the cycle shares its number with one. -/
theorem Filed.exists_mem_rulesAlong (filed : book.Filed) {r : Rule} (member : r ∈ book.rules)
    {d : Dependency} (inCycle : d ∈ cycle) (realizes : r.Realizes d)
    : ∃ s ∈ book.rulesAlong cycle, s.id = r.id := by
  apply exists_mem_distinctById
  have underTarget := filed.mem_rulesFor.mpr ⟨member, realizes.1⟩
  have dependsOn := Rule.dependsOn_iff.mpr realizes.2
  exact List.mem_flatMap.mpr ⟨d, inCycle, List.mem_filter.mpr ⟨underTarget, dependsOn⟩⟩

/-- When no number is repeated the candidates are all rules that realize the cycle. -/
theorem Filed.mem_rulesAlong_iff (filed : book.Filed) (unique : (book.rules.map (·.id)).Nodup)
    {r : Rule}
    : r ∈ book.rulesAlong cycle ↔ r ∈ book.rules ∧ ∃ d ∈ cycle, r.Realizes d := by
  constructor
  · exact filed.realizes_of_mem_rulesAlong
  · intro h
    obtain ⟨member, d, inCycle, realizes⟩ := h
    obtain ⟨s, candidate, same⟩ := filed.exists_mem_rulesAlong member inCycle realizes
    have present := (filed.realizes_of_mem_rulesAlong candidate).1
    exact List.inj_on_of_nodup_map unique present member same ▸ candidate

/-- A cycle of the book's graph has candidates. -/
theorem Filed.rulesAlong_ne_nil (filed : book.Filed) (loop : book.graph.SimpleCycle cycle)
    : book.rulesAlong cycle ≠ [] := by
  obtain ⟨d, inCycle⟩ := List.exists_mem_of_ne_nil cycle loop.nonempty
  obtain ⟨r, member, realizes⟩ := mem_dependencies_graph.mp (loop.dependencies d inCycle)
  obtain ⟨s, candidate, -⟩ := filed.exists_mem_rulesAlong member inCycle realizes
  exact List.ne_nil_of_mem candidate

end RuleBook

-- -----------------------------------------------------------------------------------------------
-- The rule that gives way

/-- The rule has a lower priority than another, or the same priority and a later row. -/
def Rule.GivesWayTo (r s : Rule) : Prop :=
  r.priority < s.priority ∨ r.priority = s.priority ∧ s.id.number < r.id.number

theorem Rule.yieldsTo_iff {r s : Rule} : r.yieldsTo s ↔ r.GivesWayTo s := by
  simp [yieldsTo, GivesWayTo]

theorem Rule.not_givesWayTo_self (r : Rule) : ¬ r.GivesWayTo r := by
  simp [GivesWayTo]

theorem Rule.GivesWayTo.asymm {r s : Rule} (gives : r.GivesWayTo s) : ¬ s.GivesWayTo r := by
  unfold GivesWayTo at *
  grind

theorem Rule.not_givesWayTo_trans {r s u : Rule} (first : ¬ r.GivesWayTo s)
    (second : ¬ s.GivesWayTo u)
    : ¬ r.GivesWayTo u := by
  unfold GivesWayTo at *
  grind

/-- Of two rules with different numbers one gives way to the other. -/
theorem Rule.givesWayTo_of_not {r s : Rule} (different : r.id ≠ s.id) (not : ¬ s.GivesWayTo r)
    : r.GivesWayTo s := by
  have numbers : r.id.number ≠ s.id.number := fun same => different (RuleId.mk.injEq .. ▸ same)
  unfold GivesWayTo at *
  grind

/-- The search for the lowest rule ends at a rule of the list that none of them gives way to. -/
theorem lowestRule?_eq_some {rules : List Rule} {lowest : Rule}
    (found : lowestRule? rules = some lowest)
    : lowest ∈ rules ∧ ∀ s ∈ rules, ¬ s.GivesWayTo lowest := by
  cases rules with
  | nil => simp [lowestRule?] at found
  | cons r rest =>
      obtain rfl := Option.some.inj found
      clear found
      induction rest generalizing r with
      | nil => simp [Rule.not_givesWayTo_self]
      | cons s rest ih =>
          rw [List.foldl_cons]
          split
          next yields =>
            obtain ⟨member, least⟩ := ih s
            refine ⟨List.mem_cons_of_mem r member, List.forall_mem_cons.mpr ⟨?_, least⟩⟩
            have later := (Rule.yieldsTo_iff.mp yields).asymm
            exact Rule.not_givesWayTo_trans later (least s List.mem_cons_self)
          next stays =>
            obtain ⟨member, least⟩ := ih r
            obtain ⟨first, others⟩ := List.forall_mem_cons.mp least
            refine ⟨?_, List.forall_mem_cons.mpr ⟨first, List.forall_mem_cons.mpr ⟨?_, others⟩⟩⟩
            · exact List.cons_subset_cons r (List.subset_cons_self s rest) member
            · exact Rule.not_givesWayTo_trans (mt Rule.yieldsTo_iff.mpr stays) first

theorem exists_lowestRule? {rules : List Rule} (nonempty : rules ≠ [])
    : ∃ lowest, lowestRule? rules = some lowest := by
  cases rules with
  | nil => exact absurd rfl nonempty
  | cons r rest => exact ⟨_, rfl⟩

end MeasureSheet
