import MeasureSheet.Proofs.CycleRemoval.Course

/-! What a policy is shown and what its answers lead to, whatever the policy is. Each call shows it
rules that make up a cycle of the rules still there, a run ends at the first answer that is none of
them, and it leaves no cycle when there is no such answer.
-/

namespace MeasureSheet

variable {choose : RemovalPolicy} {earlier : List (List Rule)} {book rest : RuleBook}
  {u : Untangling}

-- -----------------------------------------------------------------------------------------------
-- Giving up a rule

/-- The answer is the number of one of the candidates. -/
def NamesOneOf (answer : Option RuleId) (candidates : List Rule) : Prop :=
  ∃ r ∈ candidates, answer = some r.id

/-- The rule that is given up is the one that the book finds by the number in the answer. -/
theorem RuleBook.remove?_of_giveUp? {candidates : List Rule} {answer : Option RuleId} {rule : Rule}
    (given : book.giveUp? candidates answer = some (rule, rest))
    : answer = some rule.id
      ∧ NamesOneOf answer candidates
      ∧ book.find? rule.id = some rule
      ∧ book.remove? rule.id = some (rule, rest) := by
  obtain ⟨id, rfl, ⟨r, candidate, same⟩, removed⟩ := giveUp?_eq_some_iff.mp given
  have found := (remove?_eq_some removed).1
  obtain rfl : rule.id = id := by simpa using List.find?_some found
  exact ⟨rfl, ⟨r, candidate, same ▸ rfl⟩, found, removed⟩

/-- The book when rules were taken out by their numbers, one after the other. -/
def RuleBook.without (book : RuleBook) (ids : List RuleId) : RuleBook :=
  ids.foldl (fun left id => ((left.remove? id).map (·.2)).getD left) book

theorem RuleBook.without_cons {id : RuleId} {rule : Rule}
    (removed : book.remove? id = some (rule, rest)) (ids : List RuleId)
    : book.without (id :: ids) = rest.without ids := by
  simp [without, removed]

-- -----------------------------------------------------------------------------------------------
-- What a policy is shown

/-- A dilemma that a book poses: its cycle is one of the book's graph, and its candidates are rules
of the book that realize the cycle, at least one and no two of one number.
-/
structure Dilemma.PosedBy (d : Dilemma) (book : RuleBook) : Prop where
  loop : book.graph.SimpleCycle d.cycle
  nonempty : d.candidates ≠ []
  distinct : (d.candidates.map (·.id)).Nodup
  present : ∀ r ∈ d.candidates, r ∈ book.rules
  realizes : ∀ r ∈ d.candidates, ∃ e ∈ d.cycle, r.Realizes e

theorem RuleBook.Filed.posedBy_dilemma (filed : book.Filed) {cycle : List Dependency}
    (found : book.graph.findCycle = some cycle)
    : (book.dilemma cycle).PosedBy book where
  loop := DependencyGraph.simpleCycle_of_findCycle found
  nonempty := filed.rulesAlong_ne_nil (DependencyGraph.simpleCycle_of_findCycle found)
  distinct := book.nodup_rulesAlong cycle
  present := fun _ candidate => (filed.realizes_of_mem_rulesAlong candidate).1
  realizes := fun _ candidate => (filed.realizes_of_mem_rulesAlong candidate).2

/-- The dilemmas of a run, those that it settled before the one that it did not. -/
def Untangling.dilemmas (u : Untangling) : List Dilemma :=
  u.removals.map (·.dilemma) ++ u.dilemma.toList

theorem Untangling.consultations_eq_map (u : Untangling)
    : u.consultations = u.dilemmas.map (·.candidates) := by
  simp [consultations, dilemmas]

theorem Untangling.outcome_eq_ok_iff {left : RuleBook}
    : u.outcome = .ok left ↔ u.dilemma = none ∧ u.book = left := by
  unfold outcome
  cases u.dilemma <;> simp

theorem Untangling.outcome_eq_error_iff {e : UnresolvableCycle}
    : u.outcome = .error e ↔ ∃ d, u.dilemma = some d ∧ e.fields = d.cycle.map (·.target) := by
  obtain ⟨fields⟩ := e
  unfold outcome
  cases u.dilemma <;> simp [Dilemma.fields, eq_comm]

/-- The numbers of the rules that were given up before a call of the policy. -/
def Untangling.givenBefore (u : Untangling) (call : Nat) : List RuleId :=
  (u.removed.map (·.id)).take call

namespace Course

/-- A policy decides the same way of cycles only once: runs from one state are equal. -/
theorem unique (course : Course choose earlier book u) {u' : Untangling}
    (course' : Course choose earlier book u')
    : u = u' := by
  induction course generalizing u' with
  | done untangled =>
      cases course' with
      | done => rfl
      | stuck found => exact absurd (untangled.symm.trans found) (Option.some_ne_none _).symm
      | broken found => exact absurd (untangled.symm.trans found) (Option.some_ne_none _).symm
  | stuck found refused =>
      cases course' with
      | done untangled => exact absurd (untangled.symm.trans found) (Option.some_ne_none _).symm
      | stuck found' =>
          obtain rfl := Option.some.inj (found.symm.trans found')
          rfl
      | broken found' given =>
          obtain rfl := Option.some.inj (found.symm.trans found')
          exact absurd (refused.symm.trans given) (Option.some_ne_none _).symm
  | broken found given course ih =>
      cases course' with
      | done untangled => exact absurd (untangled.symm.trans found) (Option.some_ne_none _).symm
      | stuck found' refused =>
          obtain rfl := Option.some.inj (found.symm.trans found')
          exact absurd (refused.symm.trans given) (Option.some_ne_none _).symm
      | broken found' given' course' =>
          obtain rfl := Option.some.inj (found.symm.trans found')
          obtain ⟨rfl, rfl⟩ := Prod.mk.inj (Option.some.inj (given.symm.trans given'))
          rw [ih course']

/-- Every call but a last one costs a rule, and for the last one there is a rule left. -/
theorem length_consultations_le (course : Course choose earlier book u) (filed : book.Filed)
    : u.consultations.length ≤ book.ruleCount := by
  induction course with
  | done => exact Nat.zero_le _
  | stuck found refused =>
      obtain ⟨r, candidate⟩ :=
        List.exists_mem_of_ne_nil _ (filed.posedBy_dilemma found).nonempty
      exact List.length_pos_of_mem ((filed.posedBy_dilemma found).present r candidate)
  | broken found given course ih =>
      have count := RuleBook.ruleCount_of_giveUp? given
      obtain ⟨-, -, -, removed⟩ := RuleBook.remove?_of_giveUp? given
      have later := ih (filed.remove? removed)
      simp only [Untangling.consultations, List.map_cons, List.cons_append, List.length_cons]
        at later ⊢
      omega

/-- Every dilemma is posed by the book without the rules given up before, by run induction. -/
theorem posedBy (course : Course choose earlier book u) (filed : book.Filed) {k : Nat}
    {d : Dilemma} (call : u.dilemmas[k]? = some d)
    : d.PosedBy (book.without (u.givenBefore k)) := by
  induction course generalizing k with
  | done => simp [Untangling.dilemmas] at call
  | stuck found refused =>
      obtain ⟨rfl, rfl⟩ : k = 0 ∧ RuleBook.dilemma _ _ = d := by
        simpa [Untangling.dilemmas, List.getElem?_singleton] using call
      exact filed.posedBy_dilemma found
  | broken found given course ih =>
      obtain ⟨-, -, -, removed⟩ := RuleBook.remove?_of_giveUp? given
      cases k with
      | zero =>
          obtain rfl : RuleBook.dilemma _ _ = d := by simpa [Untangling.dilemmas] using call
          exact filed.posedBy_dilemma found
      | succ k =>
          have posed :=
            ih (filed.remove? removed) (k := k) (by simpa [Untangling.dilemmas] using call)
          rwa [← RuleBook.without_cons removed] at posed

/-- Every rule given up was named by the policy, and was the first of its number. -/
theorem named_of_removed (course : Course choose earlier book u) {k : Nat} {r : Rule}
    (given : u.removed[k]? = some r)
    : ∃ shown,
        u.consultations[k]? = some shown
        ∧ choose (earlier ++ u.consultations.take k) shown = some r.id
        ∧ NamesOneOf (some r.id) shown
        ∧ (book.without (u.givenBefore k)).find? r.id = some r := by
  induction course generalizing k with
  | done => simp [Untangling.removed] at given
  | stuck => simp [Untangling.removed] at given
  | broken found givenUp course ih =>
      obtain ⟨answer, named, first, removed⟩ := RuleBook.remove?_of_giveUp? givenUp
      cases k with
      | zero =>
          obtain rfl : _ = r := by simpa [Untangling.removed] using given
          exact ⟨_, rfl, by simpa using answer, answer ▸ named, first⟩
      | succ k =>
          obtain ⟨shown, call, answer, named, first⟩ :=
            ih (k := k) (by simpa [Untangling.removed] using given)
          refine ⟨shown, call, ?_, named, ?_⟩
          · simpa [Untangling.consultations] using answer
          · rwa [← RuleBook.without_cons removed] at first

/-- The book that is left is the first one without the rules that were given up. -/
theorem book_eq_without (course : Course choose earlier book u)
    : u.book = book.without (u.removed.map (·.id)) := by
  induction course with
  | done => rfl
  | stuck => rfl
  | broken found given course ih =>
      obtain ⟨-, -, -, removed⟩ := RuleBook.remove?_of_giveUp? given
      exact ih.trans (RuleBook.without_cons removed _).symm

/-- A dilemma stays unsettled only when the policy names none of its candidates. -/
theorem refused_of_dilemma (course : Course choose earlier book u) (filed : book.Filed)
    {d : Dilemma} (unsettled : u.dilemma = some d)
    : ¬ NamesOneOf (choose (earlier ++ u.consultations.take u.removals.length) d.candidates)
        d.candidates := by
  induction course with
  | done => exact absurd unsettled.symm (Option.some_ne_none d)
  | @stuck earlier book cycle found refused =>
      obtain rfl := Option.some.inj unsettled
      rintro ⟨r, candidate, answer⟩
      have first : choose earlier (book.rulesAlong cycle) = some r.id := by
        simpa using answer
      exact filed.giveUp?_eq_none_iff.mp refused r candidate first
  | broken found given course ih =>
      obtain ⟨-, -, -, removed⟩ := RuleBook.remove?_of_giveUp? given
      have refused := ih (filed.remove? removed) unsettled
      simpa [Untangling.consultations] using refused

/-- A run settles every dilemma exactly when each call of the policy names a candidate. -/
theorem dilemma_eq_none_iff (course : Course choose earlier book u) (filed : book.Filed)
    : u.dilemma = none
      ↔ ∀ k shown,
          u.consultations[k]? = some shown
          → NamesOneOf (choose (earlier ++ u.consultations.take k) shown) shown := by
  constructor
  · intro settled k shown call
    have bound : k < u.removed.length := by
      have inside := (List.getElem?_eq_some_iff.mp call).1
      simpa [Untangling.consultations, Untangling.removed, settled] using inside
    obtain ⟨shown', call', answer, named, -⟩ :=
      course.named_of_removed (List.getElem?_eq_getElem bound)
    obtain rfl := Option.some.inj (call.symm.trans call')
    exact answer ▸ named
  · intro named
    cases unsettled : u.dilemma with
    | none => rfl
    | some d =>
        refine absurd ?_ (course.refused_of_dilemma filed unsettled)
        apply named
        simp [Untangling.consultations, unsettled]

end Course

-- -----------------------------------------------------------------------------------------------
-- Any policy

/-- What holds of a run whatever its policy does: a larger bound changes nothing; there are not more
calls than rules; each call shows a dilemma of the rules still there; each rule given up is the
first one that has the number in the answer; the run succeeds exactly when every answer names a rule
that was shown, and then leaves no cycle and the graph of what it leaves; and it fails with the
fields of the cycle of its last call, to which no rule was named.
-/
structure SafelyUntangled (choose : RemovalPolicy) (book : RuleBook) (u : Untangling) : Prop where
  ends : ∀ bound, book.ruleCount ≤ bound → book.breakCycles choose bound [] book.graph = u
  calls : u.consultations.length ≤ book.ruleCount
  posed : ∀ k (d : Dilemma), u.dilemmas[k]? = some d → d.PosedBy (book.without (u.givenBefore k))
  shown : u.consultations = u.dilemmas.map (·.candidates)
  named
    : ∀ k r,
        u.removed[k]? = some r
        → ∃ shown,
            u.consultations[k]? = some shown
            ∧ choose (u.consultations.take k) shown = some r.id
            ∧ (book.without (u.givenBefore k)).find? r.id = some r
  succeeds
    : (∃ left, u.outcome = .ok left)
      ↔ ∀ k shown,
          u.consultations[k]? = some shown
          → NamesOneOf (choose (u.consultations.take k) shown) shown
  leaves
    : ∀ left,
        u.outcome = .ok left
        → left = book.without (u.removed.map (·.id)) ∧ left.graph.Acyclic ∧ u.graph = left.graph
  fails
    : ∀ e,
        u.outcome = .error e
        → ∃ d,
            u.dilemmas.getLast? = some d
            ∧ ¬ NamesOneOf (choose (u.consultations.take u.removals.length) d.candidates)
                d.candidates
            ∧ e.fields = d.cycle.map (·.target)

/-- Untangling is safe for every policy, also when rules repeat each other's numbers. -/
theorem safelyUntangled (choose : RemovalPolicy) (rules : List Rule)
    : SafelyUntangled choose (.ofRules rules) ((RuleBook.ofRules rules).untangle choose) := by
  have filed := RuleBook.filed_ofRules rules
  have course := course_untangle (.ofRules rules) choose
  generalize (RuleBook.ofRules rules).untangle choose = u at course
  refine {
    ends := fun bound bounded => (course_breakCycles bounded).unique course
    calls := course.length_consultations_le filed
    posed := fun k d call => course.posedBy filed call
    shown := u.consultations_eq_map
    named := fun k r given => ?_
    succeeds := ?_
    leaves := fun left ok => ?_
    fails := fun e error => ?_
  }
  · obtain ⟨shown, call, answer, -, first⟩ := course.named_of_removed given
    exact ⟨shown, call, answer, first⟩
  · simp only [Untangling.outcome_eq_ok_iff, exists_and_left, exists_eq', and_true]
    exact course.dilemma_eq_none_iff filed
  · obtain ⟨settled, rfl⟩ := Untangling.outcome_eq_ok_iff.mp ok
    exact ⟨course.book_eq_without, course.acyclic settled, course.graph_eq⟩
  · obtain ⟨d, unsettled, fields⟩ := Untangling.outcome_eq_error_iff.mp error
    exact ⟨d, by simp [Untangling.dilemmas, unsettled],
      course.refused_of_dilemma filed unsettled, fields⟩

end MeasureSheet
