import MeasureSheet.Proofs.CycleRemoval.Course
import MeasureSheet.Proofs.DependencyGraph.Likeness
import MeasureSheet.Proofs.RuleTable.Renumbering

/-! Books of rules in another order and under other numbers. When no two rules have one priority,
the default policy breaks the cycles of such books in the same way.
-/

namespace MeasureSheet

-- -----------------------------------------------------------------------------------------------
-- Rearranged books

/-- A book has the rules of another under new numbers, and in any order. Neither book has two rules
of one number, and no two rules have one priority.
-/
structure RuleBook.Rearranged (number : RuleId → RuleId) (book book' : RuleBook) : Prop where
  filed : book.Filed
  filed' : book'.Filed
  perm : book'.rules.Perm (book.rules.map (.renumber number))
  unique : (book.rules.map (·.id)).Nodup
  unique' : (book'.rules.map (·.id)).Nodup
  decided : (book.rules.map (·.priority)).Nodup

namespace RuleBook.Rearranged

variable {number : RuleId → RuleId} {book book' : RuleBook} {cycle : List Dependency}

theorem mem_rules_iff (rearranged : Rearranged number book book') {r' : Rule}
    : r' ∈ book'.rules ↔ ∃ r ∈ book.rules, r.renumber number = r' := by
  rw [rearranged.perm.mem_iff, List.mem_map]

/-- Neither the order nor the numbers of rules count for which dependencies there are. -/
theorem alike (rearranged : Rearranged number book book') : book.graph.Alike book'.graph := by
  have same : book'.rules.Perm (book.renumber number).rules :=
    rules_renumber number book ▸ rearranged.perm
  intro d
  rw [← graph_renumber number book]
  constructor
  · exact fun member => dependencies_graph_subset same.symm.subset member
  · exact fun member => dependencies_graph_subset same.subset member

/-- Both books have the same candidates for a cycle, up to their numbers. -/
theorem mem_rulesAlong_iff (rearranged : Rearranged number book book') {r' : Rule}
    : r' ∈ book'.rulesAlong cycle ↔ ∃ r ∈ book.rulesAlong cycle, r.renumber number = r' := by
  simp only [rearranged.filed.mem_rulesAlong_iff rearranged.unique,
    rearranged.filed'.mem_rulesAlong_iff rearranged.unique', rearranged.mem_rules_iff]
  constructor
  · intro h
    obtain ⟨⟨r, member, rfl⟩, along⟩ := h
    exact ⟨r, ⟨member, along⟩, rfl⟩
  · intro h
    obtain ⟨r, ⟨member, along⟩, rfl⟩ := h
    exact ⟨⟨r, member, rfl⟩, along⟩

/-- Priorities alone say which candidate is the lowest, as none of them is there twice. -/
theorem lowestRule?_rulesAlong (rearranged : Rearranged number book book') {lowest : Rule}
    (least : lowestRule? (book.rulesAlong cycle) = some lowest)
    : lowestRule? (book'.rulesAlong cycle) = some (lowest.renumber number) := by
  obtain ⟨candidate, below⟩ := lowestRule?_eq_some least
  have candidate' := rearranged.mem_rulesAlong_iff.mpr ⟨lowest, candidate, rfl⟩
  obtain ⟨lowest', least'⟩ := exists_lowestRule? (List.ne_nil_of_mem candidate')
  obtain ⟨inBook', below'⟩ := lowestRule?_eq_some least'
  obtain ⟨other, otherCandidate, rfl⟩ := rearranged.mem_rulesAlong_iff.mp inBook'
  have same : lowest.priority = other.priority := by
    have notLess := below other otherCandidate
    have notGreater := below' _ candidate'
    simp only [Rule.GivesWayTo, Rule.priority_renumber, not_or] at notLess notGreater
    exact Int32.le_antisymm (Int32.not_lt.mp notLess.1) (Int32.not_lt.mp notGreater.1)
  have member := (rearranged.filed.realizes_of_mem_rulesAlong candidate).1
  have otherMember := (rearranged.filed.realizes_of_mem_rulesAlong otherCandidate).1
  rw [least', List.inj_on_of_nodup_map rearranged.decided member otherMember same]

end RuleBook.Rearranged

-- -----------------------------------------------------------------------------------------------
-- Giving up rules of rearranged books

/-- When no number is repeated, the default policy gives up the lowest candidate. -/
theorem RuleBook.Filed.lowestRule?_of_giveUp? {book rest : RuleBook} (filed : book.Filed)
    (unique : (book.rules.map (·.id)).Nodup) {earlier : List (List Rule)}
    {cycle : List Dependency} {rule : Rule}
    (given
      : book.giveUp? (book.rulesAlong cycle)
          (RemovalPolicy.lowestPriority earlier (book.rulesAlong cycle))
        = some (rule, rest))
    : lowestRule? (book.rulesAlong cycle) = some rule := by
  obtain ⟨id, answer, -, removed⟩ := RuleBook.giveUp?_eq_some_iff.mp given
  obtain ⟨lowest, least, rfl⟩ := Option.map_eq_some_iff.mp answer
  have found := (RuleBook.remove?_eq_some removed).1
  have member := List.mem_of_find?_eq_some found
  have candidate := (filed.realizes_of_mem_rulesAlong (lowestRule?_eq_some least).1).1
  have same : rule.id = lowest.id := by simpa using List.find?_some found
  rw [least, List.inj_on_of_nodup_map unique member candidate same]

namespace RuleBook.Rearranged

variable {number : RuleId → RuleId} {book book' rest rest' : RuleBook}
  {earlier earlier' : List (List Rule)} {cycle : List Dependency} {rule rule' : Rule}

/-- Books from which a rule was taken, each under its number, have the other rules in common. -/
theorem remove? (rearranged : Rearranged number book book') {id id' : RuleId}
    (removed : book.remove? id = some (rule, rest))
    (removed' : book'.remove? id' = some (rule.renumber number, rest'))
    : Rearranged number rest rest' := by
  have perm := perm_of_remove? removed
  have perm' := perm_of_remove? removed'
  have whole : (rule.renumber number :: rest'.rules).Perm
      (rule.renumber number :: rest.rules.map (.renumber number)) :=
    perm'.symm.trans (rearranged.perm.trans (perm.map _))
  constructor
  · exact rearranged.filed.remove? removed
  · exact rearranged.filed'.remove? removed'
  · exact whole.cons_inv
  · exact (List.nodup_cons.mp ((perm.map _).nodup_iff.mp rearranged.unique)).2
  · exact (List.nodup_cons.mp ((perm'.map _).nodup_iff.mp rearranged.unique')).2
  · exact (List.nodup_cons.mp ((perm.map _).nodup_iff.mp rearranged.decided)).2

/-- One removal from each of two rearranged books takes the same rule and rearranges the others. -/
theorem giveUp? (rearranged : Rearranged number book book')
    (given
      : book.giveUp? (book.rulesAlong cycle)
          (RemovalPolicy.lowestPriority earlier (book.rulesAlong cycle))
        = some (rule, rest))
    (given'
      : book'.giveUp? (book'.rulesAlong cycle)
          (RemovalPolicy.lowestPriority earlier' (book'.rulesAlong cycle))
        = some (rule', rest'))
    : rule' = rule.renumber number ∧ Rearranged number rest rest' := by
  have least := rearranged.filed.lowestRule?_of_giveUp? rearranged.unique given
  have least' := rearranged.filed'.lowestRule?_of_giveUp? rearranged.unique' given'
  obtain rfl : rule' = rule.renumber number :=
    Option.some.inj (least'.symm.trans (rearranged.lowestRule?_rulesAlong least))
  obtain ⟨id, -, -, removed⟩ := giveUp?_eq_some_iff.mp given
  obtain ⟨id', -, -, removed'⟩ := giveUp?_eq_some_iff.mp given'
  exact ⟨rfl, rearranged.remove? removed removed'⟩

end RuleBook.Rearranged

/-- Runs from rearranged books give up the same rules in the same order and leave rearranged books,
by induction on one of them: both meet the same cycles.
-/
theorem Course.rearranged {number : RuleId → RuleId} {book book' : RuleBook}
    {earlier earlier' : List (List Rule)} {u u' : Untangling}
    (course : Course .lowestPriority earlier book u)
    (course' : Course .lowestPriority earlier' book' u')
    (rearranged : RuleBook.Rearranged number book book')
    : u'.removed = u.removed.map (.renumber number)
      ∧ RuleBook.Rearranged number u.book u'.book := by
  induction course generalizing book' earlier' u' with
  | done untangled =>
      rw [rearranged.alike.findCycle_eq] at untangled
      cases course' with
      | done => exact ⟨rfl, rearranged⟩
      | stuck found' => exact absurd (untangled.symm.trans found') (Option.some_ne_none _).symm
      | broken found' => exact absurd (untangled.symm.trans found') (Option.some_ne_none _).symm
  | stuck found refused =>
      obtain ⟨p, given⟩ := exists_giveUp?_lowestPriority rearranged.filed found
      exact absurd (given.symm.trans refused) (Option.some_ne_none p)
  | @broken earlier book rest cycle rule later found given course ih =>
      rw [rearranged.alike.findCycle_eq] at found
      cases course' with
      | done untangled' => exact absurd (found.symm.trans untangled') (Option.some_ne_none cycle)
      | stuck found' refused' =>
          obtain ⟨p, given'⟩ := exists_giveUp?_lowestPriority rearranged.filed' found'
          exact absurd (given'.symm.trans refused') (Option.some_ne_none p)
      | @broken _ _ rest' cycle' rule' later' found' given' course' =>
          obtain rfl : cycle = cycle' := Option.some.inj (found.symm.trans found')
          obtain ⟨rfl, left⟩ := rearranged.giveUp? given given'
          obtain ⟨removed, final⟩ := ih course' left
          exact ⟨congrArg (List.cons _) removed, final⟩

end MeasureSheet
