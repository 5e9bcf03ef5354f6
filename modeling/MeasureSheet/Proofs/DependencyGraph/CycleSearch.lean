import MeasureSheet.DependencyGraph.Cycle
import MeasureSheet.Proofs.DependencyGraph.Reachability

/-! The search for cycles is sound and complete. The fields that it has finished are closed under
derivation and lie on no cycle, and the field at which it ends closes the way that leads to it.
-/

namespace MeasureSheet.DependencyGraph

variable {g : DependencyGraph}

/-- Finished fields, newest first: everything derived directly from one was finished before it. -/
def Settled (g : DependencyGraph) : List Field → Prop
  | [] => True
  | f :: older => (∀ child ∈ g.children f, child ∈ older) ∧ g.Settled older

theorem Settled.step_mem {finished : List Field} (settled : g.Settled finished) {f child : Field}
    (member : f ∈ finished) (step : g.Derives f child)
    : child ∈ finished := by
  induction finished with
  | nil => exact absurd member List.not_mem_nil
  | cons newest older ih =>
      rcases List.mem_cons.mp member with rfl | earlier
      · exact List.mem_cons_of_mem _ (settled.1 child (mem_children.mpr step))
      · exact List.mem_cons_of_mem _ (ih settled.2 earlier)

theorem Settled.reaches_mem {finished : List Field} (settled : g.Settled finished)
    {f target : Field} (member : f ∈ finished) (path : g.Reaches f target)
    : target ∈ finished := by
  induction path with
  | refl => exact member
  | tail _ step ih => exact settled.step_mem ih step

/-- No finished field is derived from itself: a cycle would have to finish before it began. -/
theorem Settled.not_derivesFar {finished : List Field} (settled : g.Settled finished) {f : Field}
    (member : f ∈ finished)
    : ¬ g.DerivesFar f f := by
  induction finished with
  | nil => exact absurd member List.not_mem_nil
  | cons newest older ih =>
      have circle : f ∈ older → ¬ g.DerivesFar f f := ih settled.2
      rcases List.mem_cons.mp member with rfl | earlier
      · intro around
        obtain ⟨child, step, back⟩ := Relation.TransGen.head'_iff.mp around
        have inside : child ∈ older := settled.1 child (mem_children.mpr step)
        exact circle (settled.2.reaches_mem inside back) around
      · exact circle earlier

-- -----------------------------------------------------------------------------------------------
-- The way of a search

/-- A way of different fields, newest first, each derived directly from the one before it. The depth
that is left covers all fields which are not on the way.
-/
structure Trail (g : DependencyGraph) (depth : Nat) (way : List Field) : Prop where
  linked : way.IsChain fun newer older => g.Derives older newer
  unique : way.Nodup
  inside : way ⊆ g.fields
  budget : way.length + depth = g.fields.length + 1

/-- A way cannot be longer than there are fields, so some depth is always left. -/
theorem Trail.depth_pos {depth : Nat} {way : List Field} (trail : g.Trail depth way)
    : 0 < depth := by
  have bound := trail.unique.length_le_of_subset trail.inside
  have budget := trail.budget
  omega

theorem trail_root {root : Field} (member : root ∈ g.fields)
    : g.Trail g.fields.length [root] where
  linked := List.isChain_singleton root
  unique := List.nodup_singleton root
  inside := by simpa using member
  budget := by simp [Nat.add_comm]

/-- A field that is derived from the newest one and not on the way prolongs the way. -/
theorem Trail.extend {depth : Nat} {f child : Field} {way : List Field}
    (trail : g.Trail (depth + 1) (f :: way)) (step : g.Derives f child) (fresh : child ∉ f :: way)
    : g.Trail depth (child :: f :: way) where
  linked := List.isChain_cons_cons.mpr ⟨step, trail.linked⟩
  unique := List.nodup_cons.mpr ⟨fresh, trail.unique⟩
  inside := List.cons_subset.mpr ⟨step.target_mem_fields, trail.inside⟩
  budget := by
    have budget := trail.budget
    simp only [List.length_cons] at budget ⊢
    omega

-- -----------------------------------------------------------------------------------------------
-- Closed ways

/-- The dependencies between neighbours of a chain of fields. -/
def links (first : Field) (between : List Field) (last : Field) : List Dependency :=
  List.zipWith (fun base target => { base, target }) (first :: between) (between ++ [last])

theorem links_cons (first next last : Field) (between : List Field)
    : links first (next :: between) last
      = { base := first, target := next } :: links next between last :=
  rfl

theorem map_base_links (first last : Field) (between : List Field)
    : (links first between last).map (·.base) = first :: between := by
  induction between generalizing first with
  | nil => rfl
  | cons next between ih => rw [links_cons, List.map_cons, ih]

theorem map_target_links (first last : Field) (between : List Field)
    : (links first between last).map (·.target) = between ++ [last] := by
  induction between generalizing first with
  | nil => rfl
  | cons next between ih => rw [links_cons, List.map_cons, ih, List.cons_append]

/-- Neighbours of a derivation chain are dependencies of the graph, by induction on the chain. -/
theorem mem_dependencies_of_mem_links {first last : Field} {between : List Field}
    (chain : List.IsChain g.Derives (first :: (between ++ [last]))) {d : Dependency}
    (member : d ∈ links first between last)
    : d ∈ g.dependencies := by
  induction between generalizing first with
  | nil =>
      obtain rfl : d = { base := first, target := last } := List.mem_singleton.mp member
      exact List.isChain_pair.mp chain
  | cons next between ih =>
      obtain ⟨step, later⟩ := List.isChain_cons_cons.mp chain
      rcases List.mem_cons.mp member with rfl | member
      · exact step
      · exact ih later member

/-- Different fields in a chain that leads back to its first field make a simple cycle. -/
theorem simpleCycle_closeLoop {entry : Field} {rest : List Field}
    (unique : (entry :: rest).Nodup)
    (chain : List.IsChain g.Derives (entry :: (rest ++ [entry])))
    : g.SimpleCycle (closeLoop (entry :: rest)) := by
  change g.SimpleCycle (links entry rest entry)
  constructor
  · exact List.ne_nil_of_length_pos (by simp [links])
  · exact fun d member => mem_dependencies_of_mem_links chain member
  · rw [map_base_links, map_target_links, List.rotate_cons_succ, List.rotate_zero]
  · rwa [map_base_links]

/-- From an entry on a way leads over what is newer than the entry. -/
theorem loopFrom_append {entry : Field} {newer older : List Field} (fresh : entry ∉ newer)
    : loopFrom entry (newer ++ entry :: older) = entry :: newer.reverse := by
  have newerPart : (newer ++ entry :: older).takeWhile (· ≠ entry) = newer := by
    rw [List.takeWhile_append_of_pos fun x member => by
      simpa using fun same : x = entry => fresh (same ▸ member)]
    simp
  rw [loopFrom, newerPart]

/-- A way is closed by a step from its newest field back to a field on it. -/
theorem Trail.closes {depth : Nat} {f child : Field} {way : List Field}
    (trail : g.Trail depth (f :: way)) (step : g.Derives f child) (onWay : child ∈ f :: way)
    : g.SimpleCycle (closeLoop (loopFrom child (f :: way))) := by
  obtain ⟨newer, older, split, fresh⟩ : ∃ newer older, f :: way = newer ++ child :: older
      ∧ child ∉ newer := List.eq_append_cons_of_mem onWay
  have closed : List.IsChain (fun newer older => g.Derives older newer)
      (child :: (newer ++ [child])) := by
    have whole : List.IsChain (fun newer older => g.Derives older newer) (child :: f :: way) :=
      List.isChain_cons_cons.mpr ⟨step, trail.linked⟩
    have regrouped : child :: f :: way = (child :: (newer ++ [child])) ++ older := by simp [split]
    exact (regrouped ▸ whole).left_of_append
  rw [split, loopFrom_append fresh]
  apply simpleCycle_closeLoop
  · have unique := trail.unique
    rw [split] at unique
    rw [List.nodup_cons, List.mem_reverse, List.nodup_reverse]
    exact ⟨fresh, (List.nodup_append.mp unique).1⟩
  · simpa using List.isChain_reverse.mpr closed

-- -----------------------------------------------------------------------------------------------
-- Searching

/-- What a search may make of the fields that were finished before it: it finishes its goals besides
them, or ends with the fields of a cycle.
-/
def Outcome (g : DependencyGraph) (before goals : List Field)
    : Except (List Field) (List Field) → Prop
  | .ok finished => before ⊆ finished ∧ goals ⊆ finished ∧ g.Settled finished
  | .error fields => g.SimpleCycle (closeLoop fields)

/-- Searches for several goals in turn have the outcome of one search, by induction on the goals. -/
theorem outcome_foldlM {visit : List Field → Field → Except (List Field) (List Field)}
    {goals finished : List Field}
    (each
      : ∀ goal ∈ goals, ∀ before, g.Settled before → g.Outcome before [goal] (visit before goal))
    (settled : g.Settled finished)
    : g.Outcome finished goals (goals.foldlM visit finished) := by
  induction goals generalizing finished with
  | nil => exact ⟨List.Subset.refl _, List.nil_subset _, settled⟩
  | cons goal rest ih =>
      have first := each goal List.mem_cons_self finished settled
      rw [List.foldlM_cons]
      cases visited : visit finished goal with
      | error fields =>
          rw [visited] at first
          exact first
      | ok middle =>
          rw [visited] at first
          obtain ⟨kept, reached, settledMiddle⟩ := first
          have later := ih (fun next member => each next (List.mem_cons_of_mem _ member))
            settledMiddle
          change g.Outcome finished (goal :: rest) (rest.foldlM visit middle)
          cases last : rest.foldlM visit middle with
          | error fields =>
              rw [last] at later
              exact later
          | ok final =>
              rw [last] at later
              obtain ⟨keptLater, reachedLater, settledFinal⟩ := later
              refine ⟨List.Subset.trans kept keptLater, ?_, settledFinal⟩
              exact List.cons_subset.mpr ⟨keptLater (reached List.mem_cons_self), reachedLater⟩

/-- What a search does with one child of the newest field on its way. -/
def visitChild (g : DependencyGraph) (depth : Nat) (way finished : List Field) (child : Field)
    : Except (List Field) (List Field) :=
  if child ∈ finished then .ok finished
  else if child ∈ way then .error (loopFrom child way)
  else g.search depth way finished child

theorem search_succ (g : DependencyGraph) (depth : Nat) (way finished : List Field) (f : Field)
    : g.search (depth + 1) way finished f
      = ((g.children f).foldlM (g.visitChild depth (f :: way)) finished).bind
          fun finished => .ok (f :: finished) :=
  rfl

/-- A search along a way finishes the field that it starts from, or ends with a cycle, by induction
on the depth: the children of the field are finished before the field itself.
-/
theorem outcome_search {depth : Nat} {way finished : List Field} {f : Field}
    (trail : g.Trail depth (f :: way)) (settled : g.Settled finished)
    : g.Outcome finished [f] (g.search depth way finished f) := by
  induction depth generalizing way finished f with
  | zero => exact absurd trail.depth_pos (Nat.lt_irrefl 0)
  | succ depth ih =>
      have children : g.Outcome finished (g.children f)
          ((g.children f).foldlM (g.visitChild depth (f :: way)) finished) := by
        apply outcome_foldlM _ settled
        intro child member before settledBefore
        have step := mem_children.mp member
        unfold visitChild
        split
        next old => exact ⟨List.Subset.refl _, by simpa using old, settledBefore⟩
        next =>
          split
          next onWay => exact trail.closes step onWay
          next fresh => exact ih (trail.extend step fresh) settledBefore
      rw [search_succ]
      cases visited : (g.children f).foldlM (g.visitChild depth (f :: way)) finished with
      | error fields =>
          rw [visited] at children
          exact children
      | ok final =>
          rw [visited] at children
          obtain ⟨kept, reached, settledFinal⟩ := children
          exact ⟨List.subset_cons_of_subset f kept, by simp, reached, settledFinal⟩

theorem outcome_searchAll (g : DependencyGraph) : g.Outcome [] g.fields g.searchAll := by
  unfold searchAll
  apply outcome_foldlM
  · intro root member before settled
    split
    next old => exact ⟨List.Subset.refl _, by simpa using old, settled⟩
    next => exact outcome_search (trail_root member) settled
  · trivial

/-- A cycle that is found is a simple cycle of the graph. -/
theorem simpleCycle_of_findCycle {cycle : List Dependency} (found : g.findCycle = some cycle)
    : g.SimpleCycle cycle := by
  have outcome := g.outcome_searchAll
  unfold findCycle at found
  cases searched : g.searchAll with
  | ok finished => simp [searched] at found
  | error fields =>
      rw [searched] at found outcome
      obtain rfl := Option.some.inj found
      exact outcome

/-- No cycle is found exactly when there is none. -/
theorem findCycle_eq_none_iff : g.findCycle = none ↔ g.Acyclic := by
  constructor
  · intro missing f around
    have outcome := g.outcome_searchAll
    unfold findCycle at missing
    cases searched : g.searchAll with
    | error fields => simp [searched] at missing
    | ok finished =>
        rw [searched] at outcome
        obtain ⟨-, all, settled⟩ := outcome
        obtain ⟨child, step, -⟩ := Relation.TransGen.head'_iff.mp around
        exact settled.not_derivesFar (all step.base_mem_fields) around
  · intro acyclic
    cases found : g.findCycle with
    | none => rfl
    | some cycle => exact absurd acyclic (simpleCycle_of_findCycle found).not_acyclic

/-- A field that is derived from itself lies in a graph that has a simple cycle. -/
theorem exists_simpleCycle_iff : (∃ cycle, g.SimpleCycle cycle) ↔ ¬ g.Acyclic := by
  constructor
  · rintro ⟨cycle, loop⟩
    exact loop.not_acyclic
  · intro cyclic
    cases found : g.findCycle with
    | none => exact absurd (findCycle_eq_none_iff.mp found) cyclic
    | some cycle => exact ⟨cycle, simpleCycle_of_findCycle found⟩

end MeasureSheet.DependencyGraph
