import MeasureSheet.Compilation
import MeasureSheet.Proofs.CycleRemoval.Candidates
import MeasureSheet.Proofs.DependencyGraph.CycleSearch
import MeasureSheet.Proofs.DependencyGraph.Peeling

/-! The course of breaking cycles. A run is a succession of removals, each of a candidate of the
cycle found first, up to a book without cycles or a cycle for which no candidate was named.
-/

namespace MeasureSheet

variable {choose : RemovalPolicy} {earlier : List (List Rule)} {book rest : RuleBook}
  {u : Untangling}

/-- The cycle with the rules of the book that realize it. -/
def RuleBook.dilemma (book : RuleBook) (cycle : List Dependency) : Dilemma where
  cycle
  candidates := book.rulesAlong cycle

@[simp] theorem RuleBook.candidates_dilemma (book : RuleBook) (cycle : List Dependency)
    : (book.dilemma cycle).candidates = book.rulesAlong cycle :=
  rfl

/-- A rule is given up when the policy names a candidate, and it is found by its number. -/
theorem RuleBook.giveUp?_eq_some_iff {candidates : List Rule} {answer : Option RuleId} {rule : Rule}
    : book.giveUp? candidates answer = some (rule, rest)
      ↔ ∃ id,
          answer = some id
          ∧ (∃ r ∈ candidates, r.id = id)
          ∧ book.remove? id = some (rule, rest) := by
  cases answer with
  | none => simp [giveUp?]
  | some id =>
      unfold giveUp?
      by_cases named : candidates.any (·.id = id)
      · have candidate : ∃ r ∈ candidates, r.id = id := by simpa using named
        simp only [named, if_true, Option.some.injEq, exists_eq_left', candidate, true_and]
      · have candidate : ¬ ∃ r ∈ candidates, r.id = id := by simpa using named
        simp only [named, Bool.false_eq_true, if_false, reduceCtorEq, Option.some.injEq,
          exists_eq_left', candidate, false_and]

/-- Giving up a rule leaves one rule less. -/
theorem RuleBook.ruleCount_of_giveUp? {candidates : List Rule} {answer : Option RuleId}
    {rule : Rule} (given : book.giveUp? candidates answer = some (rule, rest))
    : rest.ruleCount + 1 = book.ruleCount := by
  obtain ⟨id, -, -, removed⟩ := giveUp?_eq_some_iff.mp given
  exact (perm_of_remove? removed).length_eq.symm

/-- The policy names no candidate exactly when nothing is given up: candidates are in the book. -/
theorem RuleBook.Filed.giveUp?_eq_none_iff (filed : book.Filed) {cycle : List Dependency}
    {answer : Option RuleId}
    : book.giveUp? (book.rulesAlong cycle) answer = none
      ↔ ∀ r ∈ book.rulesAlong cycle, answer ≠ some r.id := by
  constructor
  · rintro refused r candidate rfl
    cases removed : book.remove? r.id with
    | none =>
        have present := (filed.realizes_of_mem_rulesAlong candidate).1
        exact remove?_eq_none_iff.mp removed r present rfl
    | some p =>
        have given := giveUp?_eq_some_iff.mpr ⟨r.id, rfl, ⟨r, candidate, rfl⟩, removed⟩
        exact absurd (given.symm.trans refused) (Option.some_ne_none p)
  · intro unnamed
    cases given : book.giveUp? (book.rulesAlong cycle) answer with
    | none => rfl
    | some p =>
        obtain ⟨id, rfl, ⟨r, candidate, rfl⟩, -⟩ := giveUp?_eq_some_iff.mp given
        exact absurd rfl (unnamed r candidate)

-- -----------------------------------------------------------------------------------------------
-- Runs

/-- What comes of a book when a policy decides, which was shown some candidates before: nothing when
there is no cycle, a dilemma when the policy names no candidate, and else one removal more than
comes of the book without the rule named.
-/
inductive Course (choose : RemovalPolicy)
    : (earlier : List (List Rule)) → RuleBook → Untangling → Prop where
  | done {earlier : List (List Rule)} {book : RuleBook} (untangled : book.graph.findCycle = none)
    : Course choose earlier book { removals := [], dilemma := none, book, graph := book.graph }
  | stuck {earlier : List (List Rule)} {book : RuleBook} {cycle : List Dependency}
    (found : book.graph.findCycle = some cycle)
    (refused
      : book.giveUp? (book.rulesAlong cycle) (choose earlier (book.rulesAlong cycle)) = none)
    : Course choose earlier book
        { removals := [], dilemma := some (book.dilemma cycle), book, graph := book.graph }
  | broken {earlier : List (List Rule)} {book rest : RuleBook} {cycle : List Dependency}
    {rule : Rule} {later : Untangling} (found : book.graph.findCycle = some cycle)
    (given
      : book.giveUp? (book.rulesAlong cycle) (choose earlier (book.rulesAlong cycle))
        = some (rule, rest))
    (course : Course choose (earlier ++ [book.rulesAlong cycle]) rest later)
    : Course choose earlier book
        { later with removals := { dilemma := book.dilemma cycle, rule } :: later.removals }

/-- A run takes its course when its bound is at least the number of rules, by induction on it. -/
theorem course_breakCycles {bound : Nat} (bounded : book.ruleCount ≤ bound)
    : Course choose earlier book (book.breakCycles choose bound earlier book.graph) := by
  induction bound generalizing earlier book with
  | zero =>
      unfold RuleBook.breakCycles
      cases found : book.graph.findCycle with
      | none => exact .done found
      | some cycle =>
          apply Course.stuck found
          cases given : book.giveUp? (book.rulesAlong cycle)
              (choose earlier (book.rulesAlong cycle)) with
          | none => rfl
          | some p =>
              -- A bound of zero leaves no rule that could be given up.
              have count := RuleBook.ruleCount_of_giveUp? given
              omega
  | succ bound ih =>
      unfold RuleBook.breakCycles
      cases found : book.graph.findCycle with
      | none => exact .done found
      | some cycle =>
          cases given : book.giveUp? (book.rulesAlong cycle)
              (choose earlier (book.rulesAlong cycle)) with
          | none =>
              simp only [given]
              exact .stuck found given
          | some p =>
              have count := RuleBook.ruleCount_of_giveUp? given
              simp only [given]
              exact .broken found given (ih (by omega))

theorem course_untangle (book : RuleBook) (choose : RemovalPolicy)
    : Course choose [] book (book.untangle choose) :=
  course_breakCycles (Nat.le_refl _)

/-- The test for cycles before a run only spares it a search that finds nothing. -/
theorem course_settle (book : RuleBook) (choose : RemovalPolicy)
    : Course choose [] book (book.settle choose) := by
  unfold RuleBook.settle
  split
  next acyclic =>
    have acyclic := DependencyGraph.isAcyclic_iff.mp acyclic
    exact .done (DependencyGraph.findCycle_eq_none_iff.mpr acyclic)
  next => exact course_untangle book choose

/-- A book without cycles is left as it is. -/
theorem RuleBook.settle_of_acyclic (acyclic : book.graph.Acyclic) (choose : RemovalPolicy)
    : book.settle choose = { removals := [], dilemma := none, book, graph := book.graph } :=
  if_pos (DependencyGraph.isAcyclic_iff.mpr acyclic)

-- -----------------------------------------------------------------------------------------------
-- What a run keeps

namespace Course

/-- A run loses no rule and doubles none: they are left or were given up. -/
theorem perm (course : Course choose earlier book u)
    : (u.removed ++ u.book.rules).Perm book.rules := by
  induction course with
  | done => exact .refl _
  | stuck => exact .refl _
  | broken found given course ih =>
      obtain ⟨id, -, -, removed⟩ := RuleBook.giveUp?_eq_some_iff.mp given
      exact (ih.cons _).trans (RuleBook.perm_of_remove? removed).symm

/-- The rules that are left stand in the order in which they stood before. -/
theorem sublist (course : Course choose earlier book u) : u.book.rules.Sublist book.rules := by
  induction course with
  | done => exact .refl _
  | stuck => exact .refl _
  | broken found given course ih =>
      obtain ⟨id, -, -, removed⟩ := RuleBook.giveUp?_eq_some_iff.mp given
      refine ih.trans ?_
      rw [(RuleBook.remove?_eq_some removed).2]
      exact List.eraseP_sublist

theorem filed (course : Course choose earlier book u) (filed : book.Filed) : u.book.Filed := by
  induction course with
  | done => exact filed
  | stuck => exact filed
  | broken found given course ih =>
      obtain ⟨id, -, -, removed⟩ := RuleBook.giveUp?_eq_some_iff.mp given
      exact ih (filed.remove? removed)

theorem rulesFor_sublist (course : Course choose earlier book u) (filed : book.Filed) (f : Field)
    : (u.book.rulesFor f).Sublist (book.rulesFor f) := by
  rw [filed.rulesFor_eq, (course.filed filed).rulesFor_eq]
  exact course.sublist.filter _

/-- The graph that is searched last is that of the rules that are left. -/
theorem graph_eq (course : Course choose earlier book u) : u.graph = u.book.graph := by
  induction course with
  | done => rfl
  | stuck => rfl
  | broken found given course ih => exact ih

/-- A run that ends without a dilemma leaves no cycle. -/
theorem acyclic (course : Course choose earlier book u) (resolved : u.dilemma = none)
    : u.book.graph.Acyclic := by
  induction course with
  | done untangled => exact DependencyGraph.findCycle_eq_none_iff.mp untangled
  | stuck => exact absurd resolved (Option.some_ne_none _)
  | broken found given course ih => exact ih resolved

/-- Nothing is given up when there is no cycle, and something or a dilemma when there is one. -/
theorem removed_eq_nil_iff (course : Course choose earlier book u) (resolved : u.dilemma = none)
    : u.removed = [] ↔ book.graph.Acyclic := by
  rw [← DependencyGraph.findCycle_eq_none_iff]
  cases course with
  | done untangled => simp [untangled, Untangling.removed]
  | stuck => exact absurd resolved (Option.some_ne_none _)
  | broken found given course => simp [found, Untangling.removed]

end Course

-- -----------------------------------------------------------------------------------------------
-- The default policy

/-- The default policy gives up a candidate of every cycle that none of the others gives way to. -/
theorem exists_giveUp?_lowestPriority (filed : book.Filed) {cycle : List Dependency}
    (found : book.graph.findCycle = some cycle)
    : ∃ p,
        book.giveUp? (book.rulesAlong cycle)
          (RemovalPolicy.lowestPriority earlier (book.rulesAlong cycle))
        = some p := by
  have loop := DependencyGraph.simpleCycle_of_findCycle found
  obtain ⟨lowest, least⟩ := exists_lowestRule? (filed.rulesAlong_ne_nil loop)
  have answer : RemovalPolicy.lowestPriority earlier (book.rulesAlong cycle) = some lowest.id := by
    simp [RemovalPolicy.lowestPriority, least]
  apply Option.ne_none_iff_exists'.mp
  intro refused
  have candidate := (lowestRule?_eq_some least).1
  exact filed.giveUp?_eq_none_iff.mp refused lowest candidate answer

/-- The default policy leaves no dilemma, since cycles of the book's graph have candidates. -/
theorem Course.dilemma_lowestPriority (course : Course .lowestPriority earlier book u)
    (filed : book.Filed)
    : u.dilemma = none := by
  induction course with
  | done => rfl
  | stuck found refused =>
      obtain ⟨p, given⟩ := exists_giveUp?_lowestPriority filed found
      exact absurd (given.symm.trans refused) (Option.some_ne_none p)
  | broken found given course ih =>
      obtain ⟨id, -, -, removed⟩ := RuleBook.giveUp?_eq_some_iff.mp given
      exact ih (filed.remove? removed)

end MeasureSheet
