import MeasureSheet.Proofs.CycleRemoval.Course

/-! What the default policy owes to the rules of a book. Each rule that it gives up is the lowest of
those that make up a cycle of the rules still there, so rules off all cycles and the highest rule of
all stay.
-/

namespace MeasureSheet

/-- The rules that are left when some were given up. -/
def rulesWithout (rules given : List Rule) : List Rule :=
  rules.filter fun r => given.all (· ≠ r)

theorem mem_rulesWithout {rules given : List Rule} {r : Rule}
    : r ∈ rulesWithout rules given ↔ r ∈ rules ∧ r ∉ given := by
  have absent : (∀ s ∈ given, ¬ s = r) ↔ r ∉ given :=
    ⟨fun others member => others r member rfl, fun outside s member same => outside (same ▸ member)⟩
  simp [rulesWithout, absent]

theorem rulesWithout_nil (rules : List Rule) : rulesWithout rules [] = rules := by
  simp [rulesWithout]

/-- Rules can be given up one after the other. -/
theorem rulesWithout_cons (rules : List Rule) (rule : Rule) (given : List Rule)
    : rulesWithout rules (rule :: given) = rulesWithout (rulesWithout rules [rule]) given := by
  simp only [rulesWithout, List.filter_filter]
  apply List.filter_congr
  intro r _
  simp [Bool.and_comm]

/-- Giving up one of different rules leaves the book of the others, which differ as before. -/
theorem rulesWithout_of_giveUp? {rules candidates : List Rule} {answer : Option RuleId}
    {rule : Rule} {rest : RuleBook} (unique : (rules.map (·.id)).Nodup)
    (given : (RuleBook.ofRules rules).giveUp? candidates answer = some (rule, rest))
    : rule ∈ rules
      ∧ rest = .ofRules (rulesWithout rules [rule])
      ∧ ((rulesWithout rules [rule]).map (·.id)).Nodup := by
  obtain ⟨id, -, -, removed⟩ := RuleBook.giveUp?_eq_some_iff.mp given
  obtain ⟨member, left⟩ := RuleBook.ofRules_of_remove? unique removed
  have same : rulesWithout rules [rule] = rules.filter (· ≠ rule) := by
    simp [rulesWithout, eq_comm]
  rw [same]
  exact ⟨member, left, unique.sublist (List.filter_sublist.map _)⟩

/-- What a run leaves is the book of the rules that it did not give up, by induction on the run. -/
theorem Course.book_eq {choose : RemovalPolicy} {earlier : List (List Rule)} {u : Untangling}
    {rules : List Rule} (course : Course choose earlier (.ofRules rules) u)
    (unique : (rules.map (·.id)).Nodup)
    : u.book = .ofRules (rulesWithout rules u.removed) := by
  generalize start : RuleBook.ofRules rules = book at course
  induction course generalizing rules with
  | done => simp [← start, Untangling.removed, rulesWithout_nil]
  | stuck => simp [← start, Untangling.removed, rulesWithout_nil]
  | @broken earlier book rest cycle rule later found given course ih =>
      subst start
      obtain ⟨-, left, uniqueLeft⟩ := rulesWithout_of_giveUp? unique given
      have kept := ih uniqueLeft left.symm
      rwa [← rulesWithout_cons] at kept

-- -----------------------------------------------------------------------------------------------
-- Justified removals

/-- The rule given up is the lowest of the rules present that realize the cycle, which is a cycle of
the graph of these rules.
-/
structure Removal.Justified (removal : Removal) (present : List Rule) : Prop where
  loop : (RuleBook.ofRules present).graph.SimpleCycle removal.dilemma.cycle
  member : removal.rule ∈ present
  realizes : ∃ d ∈ removal.dilemma.cycle, removal.rule.Realizes d
  lowest
    : ∀ s ∈ present,
        s ≠ removal.rule
        → (∃ d ∈ removal.dilemma.cycle, s.Realizes d)
        → removal.rule.GivesWayTo s

/-- One removal by the default policy is justified: the candidates are all rules of the cycle. -/
theorem justified_giveUp? {earlier : List (List Rule)} {rules : List Rule} {rest : RuleBook}
    {cycle : List Dependency} {rule : Rule} (unique : (rules.map (·.id)).Nodup)
    (found : (RuleBook.ofRules rules).graph.findCycle = some cycle)
    (given
      : (RuleBook.ofRules rules).giveUp? ((RuleBook.ofRules rules).rulesAlong cycle)
          (RemovalPolicy.lowestPriority earlier ((RuleBook.ofRules rules).rulesAlong cycle))
        = some (rule, rest))
    : Removal.Justified { dilemma := (RuleBook.ofRules rules).dilemma cycle, rule } rules := by
  have filed := RuleBook.filed_ofRules rules
  have perm := RuleBook.rules_ofRules_perm rules
  have uniqueInBook := (perm.map (·.id)).nodup_iff.mpr unique
  have candidate_iff {s : Rule}
      : s ∈ (RuleBook.ofRules rules).rulesAlong cycle
        ↔ s ∈ rules ∧ ∃ d ∈ cycle, s.Realizes d := by
    rw [filed.mem_rulesAlong_iff uniqueInBook, perm.mem_iff]
  obtain ⟨id, answer, -, removed⟩ := RuleBook.giveUp?_eq_some_iff.mp given
  obtain ⟨lowest, least, rfl⟩ := Option.map_eq_some_iff.mp answer
  obtain ⟨candidate, below⟩ := lowestRule?_eq_some least
  obtain ⟨member, onCycle⟩ := candidate_iff.mp candidate
  -- Numbers are not repeated, so the rule taken out by its number is the one that was named.
  obtain rfl : rule = lowest := by
    have present := (rulesWithout_of_giveUp? unique given).1
    have same : rule.id = lowest.id := by
      simpa using List.find?_some (RuleBook.remove?_eq_some removed).1
    exact List.inj_on_of_nodup_map unique present member same
  refine ⟨DependencyGraph.simpleCycle_of_findCycle found, member, onCycle, ?_⟩
  intro s present different alongCycle
  have apart : rule.id ≠ s.id := fun same =>
    different (List.inj_on_of_nodup_map unique present member same.symm)
  exact Rule.givesWayTo_of_not apart (below s (candidate_iff.mpr ⟨present, alongCycle⟩))

/-- Every removal of a run is justified by the rules that were there then, by induction on it. -/
theorem Course.justified {earlier : List (List Rule)} {u : Untangling} {rules : List Rule}
    (course : Course .lowestPriority earlier (.ofRules rules) u)
    (unique : (rules.map (·.id)).Nodup) {before after : List Removal} {removal : Removal}
    (split : u.removals = before ++ removal :: after)
    : removal.Justified (rulesWithout rules (before.map (·.rule))) := by
  generalize start : RuleBook.ofRules rules = book at course
  induction course generalizing rules before with
  | done => simp at split
  | stuck => simp at split
  | @broken earlier book rest cycle rule later found given course ih =>
      subst start
      cases before with
      | nil =>
          obtain ⟨rfl, -⟩ := List.cons.inj split
          rw [List.map_nil, rulesWithout_nil]
          exact justified_giveUp? unique found given
      | cons first before =>
          obtain ⟨rfl, splitLater⟩ := List.cons.inj split
          obtain ⟨-, left, uniqueLeft⟩ := rulesWithout_of_giveUp? unique given
          rw [List.map_cons, rulesWithout_cons]
          exact ih uniqueLeft splitLater left.symm

-- -----------------------------------------------------------------------------------------------
-- Rules that stay

namespace Removal.Justified

variable {removal : Removal} {present rules : List Rule}

/-- From the target of the rule given up one of its inputs is reached. -/
theorem exists_reached_input (justified : removal.Justified present) (fewer : present ⊆ rules)
    : ∃ base ∈ removal.rule.inputs,
        (RuleBook.ofRules rules).graph.Reaches removal.rule.target base := by
  obtain ⟨d, inCycle, target, input⟩ := justified.realizes
  have path := justified.loop.reaches_base inCycle
  have inBook : (RuleBook.ofRules present).rules ⊆ (RuleBook.ofRules rules).rules := by
    intro r member
    rw [(RuleBook.rules_ofRules_perm _).mem_iff] at member ⊢
    exact fewer member
  exact ⟨d.base, input, target ▸ path.mono (RuleBook.dependencies_graph_subset inBook)⟩

/-- When no rule derives a field from itself, the rule given up gives way to another one. -/
theorem exists_givesWayTo (justified : removal.Justified present)
    (direct : ∀ r ∈ present, r.target ∉ r.inputs)
    : ∃ s ∈ present, s ≠ removal.rule ∧ removal.rule.GivesWayTo s := by
  obtain ⟨d, inCycle, target, input⟩ := justified.realizes
  have different : d.base ≠ d.target := by
    intro same
    exact direct _ justified.member (target ▸ same ▸ input)
  obtain ⟨e, inCycle', elsewhere⟩ := justified.loop.exists_other_target inCycle different
  obtain ⟨s, member, realizes⟩ :=
    RuleBook.mem_dependencies_graph.mp (justified.loop.dependencies e inCycle')
  have member := (RuleBook.rules_ofRules_perm present).mem_iff.mp member
  have other : s ≠ removal.rule := by
    rintro rfl
    exact elsewhere (realizes.1.symm.trans target)
  exact ⟨s, member, other, justified.lowest s member other ⟨e, inCycle', realizes⟩⟩

end Removal.Justified

section

variable {earlier : List (List Rule)} {u : Untangling} {rules : List Rule}

/-- What was given up in a run was given up by a justified removal. -/
theorem Course.exists_justified (course : Course .lowestPriority earlier (.ofRules rules) u)
    (unique : (rules.map (·.id)).Nodup) {r : Rule} (given : r ∈ u.removed)
    : ∃ (removal : Removal) (present : List Rule),
        removal.rule = r ∧ present ⊆ rules ∧ removal.Justified present := by
  obtain ⟨removal, member, same⟩ := List.mem_map.mp given
  obtain ⟨before, after, split⟩ := List.append_of_mem member
  have fewer : rulesWithout rules (before.map (·.rule)) ⊆ rules :=
    fun _ present => (mem_rulesWithout.mp present).1
  exact ⟨removal, _, same, fewer, course.justified unique split⟩

/-- A rule stays when none of its inputs is derived from its target. -/
theorem Course.not_mem_removed (course : Course .lowestPriority earlier (.ofRules rules) u)
    (unique : (rules.map (·.id)).Nodup) {r : Rule}
    (unreached : ∀ base ∈ r.inputs, ¬ (RuleBook.ofRules rules).graph.Reaches r.target base)
    : r ∉ u.removed := by
  intro given
  obtain ⟨removal, present, rfl, fewer, justified⟩ := course.exists_justified unique given
  obtain ⟨base, input, path⟩ := justified.exists_reached_input fewer
  exact unreached base input path

/-- A rule stays that all others give way to, when no rule derives a field from itself. -/
theorem Course.highest_not_mem_removed
    (course : Course .lowestPriority earlier (.ofRules rules) u)
    (unique : (rules.map (·.id)).Nodup) (direct : ∀ r ∈ rules, r.target ∉ r.inputs) {top : Rule}
    (highest : ∀ s ∈ rules, s ≠ top → s.GivesWayTo top)
    : top ∉ u.removed := by
  intro given
  obtain ⟨removal, present, rfl, fewer, justified⟩ := course.exists_justified unique given
  obtain ⟨s, member, other, gives⟩ :=
    justified.exists_givesWayTo fun r member => direct r (fewer member)
  exact gives.asymm (highest s (fewer member) other)

end

/-- What is owed to rules entered into a book when its cycles are broken: they are left or were
given up, without a change and in their order; what is left has no cycle; and every removal is
justified by the rules that were there then, which spares rules off all cycles and the highest rule
of all.
-/
structure FairlyUntangled (rules : List Rule) (u : Untangling) : Prop where
  resolved : u.outcome = .ok u.book
  acyclic : u.book.graph.Acyclic
  accounted : (u.removed ++ u.book.rules).Perm rules
  inOrder : ∀ f, (u.book.rulesFor f).Sublist ((RuleBook.ofRules rules).rulesFor f)
  left : u.book = .ofRules (rulesWithout rules u.removed)
  untouched : u.removed = [] ↔ (RuleBook.ofRules rules).graph.Acyclic
  justified
    : ∀ before removal after,
        u.removals = before ++ removal :: after
        → removal.Justified (rulesWithout rules (before.map (·.rule)))
  offCycles
    : ∀ r ∈ rules,
        (∀ base ∈ r.inputs, ¬ (RuleBook.ofRules rules).graph.Reaches r.target base)
        → r ∉ u.removed
  highest
    : (∀ r ∈ rules, r.target ∉ r.inputs)
      → ∀ top ∈ rules, (∀ s ∈ rules, s ≠ top → s.GivesWayTo top) → top ∈ u.book.rules

/-- The default policy is fair to rules with different numbers. -/
theorem fairlyUntangled_lowestPriority {rules : List Rule} (unique : (rules.map (·.id)).Nodup)
    : FairlyUntangled rules ((RuleBook.ofRules rules).untangle .lowestPriority) := by
  have filed := RuleBook.filed_ofRules rules
  have course := course_untangle (.ofRules rules) .lowestPriority
  generalize (RuleBook.ofRules rules).untangle .lowestPriority = u at course
  have resolved := course.dilemma_lowestPriority filed
  have accounted := course.perm.trans (RuleBook.rules_ofRules_perm rules)
  refine {
    resolved := by rw [Untangling.outcome, resolved]
    acyclic := course.acyclic resolved
    accounted
    inOrder := course.rulesFor_sublist filed
    left := course.book_eq unique
    untouched := course.removed_eq_nil_iff resolved
    justified := fun before removal after split => course.justified unique split
    offCycles := fun r _ unreached => course.not_mem_removed unique unreached
    highest := fun direct top member highest => ?_
  }
  have stays := course.highest_not_mem_removed unique direct highest
  exact (List.mem_append.mp (accounted.mem_iff.mpr member)).resolve_left stays

/-- A rule that takes one field for another. -/
def copyRule (row : Nat) (target base : String) (priority : Int32) : Rule where
  id := .ofRow row
  target := .named target
  relation := .proportion (.named base) 1.0
  priority

/-- Rules that make up two cycles, one over three fields and one over two of them. -/
def overlappingRules : List Rule :=
  [copyRule 0 "hip" "waist" 9, copyRule 1 "bust" "hip" 4, copyRule 2 "waist" "bust" 2,
    copyRule 3 "waist" "hip" 1]

theorem overlappingRules_fairlyUntangled
    : (overlappingRules.map (·.id)).Nodup
      ∧ FairlyUntangled overlappingRules
          ((RuleBook.ofRules overlappingRules).untangle .lowestPriority)
      ∧ ((RuleBook.ofRules overlappingRules).untangle .lowestPriority).removed
        = [copyRule 2 "waist" "bust" 2, copyRule 3 "waist" "hip" 1] := by
  have unique : (overlappingRules.map (·.id)).Nodup := by decide
  exact ⟨unique, fairlyUntangled_lowestPriority unique, by decide +kernel⟩

end MeasureSheet
