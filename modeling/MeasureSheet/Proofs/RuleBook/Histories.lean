import MeasureSheet.Proofs.RuleBook.Sorting

/-! Histories of rule books. Whatever was entered, taken out and sorted before, a book holds what
was entered and not taken out, each rule under its own target; a rule is taken out where it is
found, and entering and sorting move no rule past another of its kind.
-/

namespace MeasureSheet

-- -----------------------------------------------------------------------------------------------
-- Taking out

/-- One list is another without a rule, which is the first of its number there. -/
def TakenOut (rule : Rule) (before after : List Rule) : Prop :=
  ∃ front back,
    before = front ++ rule :: back ∧ after = front ++ back ∧ ∀ r ∈ front, r.id ≠ rule.id

theorem takenOut_of_find? {id : RuleId} {rule : Rule} {rules : List Rule}
    (found : rules.find? (fun r => r.id = id) = some rule)
    : rule.id = id ∧ TakenOut rule rules (rules.eraseP fun r => r.id = id) := by
  obtain rfl : rule.id = id := by simpa using List.find?_some found
  obtain ⟨front, back, parts, left, others⟩ := exists_parts_of_find? found
  exact ⟨rfl, front, back, parts, left, by simpa using others⟩

/-- Among the rules that pass a test, a rule that passes it is taken out as well. -/
theorem TakenOut.filter {rule : Rule} {before after : List Rule}
    (taken : TakenOut rule before after) {p : Rule → Bool} (passes : p rule)
    : TakenOut rule (before.filter p) (after.filter p) := by
  obtain ⟨front, back, rfl, rfl, absent⟩ := taken
  refine ⟨front.filter p, back.filter p, ?_, List.filter_append .., ?_⟩
  · rw [List.filter_append, List.filter_cons_of_pos passes]
  · exact fun r member => absent r (List.mem_filter.mp member).1

/-- Among the rules that pass a test, nothing changes when the rule fails it. -/
theorem TakenOut.filter_eq {rule : Rule} {before after : List Rule}
    (taken : TakenOut rule before after) {p : Rule → Bool} (fails : ¬ p rule)
    : after.filter p = before.filter p := by
  obtain ⟨front, back, rfl, rfl, -⟩ := taken
  rw [List.filter_append, List.filter_append, List.filter_cons_of_neg fails]

/-- Behind rules with other numbers, a rule is taken out of its place at the end. -/
theorem TakenOut.eq_of_append_singleton {rule : Rule} {before after : List Rule}
    (taken : TakenOut rule (before ++ [rule]) after) (absent : ∀ r ∈ before, r.id ≠ rule.id)
    : after = before := by
  obtain ⟨front, back, listed, rfl, -⟩ := taken
  rcases List.eq_nil_or_concat back with rfl | ⟨back, last, rfl⟩
  · obtain ⟨same, -⟩ := List.append_inj' listed rfl
    rw [same, List.append_nil]
  · -- Otherwise the rule would stand before the last place too.
    rw [List.concat_eq_append, ← List.cons_append, ← List.append_assoc] at listed
    obtain ⟨same, -⟩ := List.append_inj' listed rfl
    exact absurd rfl (absent rule (by simp [same]))

/-- A rule leaves a book: its target's list loses it, and no other list changes. -/
structure RuleBook.TakenFrom (rule : Rule) (book rest : RuleBook) : Prop where
  everywhere : TakenOut rule book.rules rest.rules
  own : TakenOut rule (book.rulesFor rule.target) (rest.rulesFor rule.target)
  others : ∀ f, f ≠ rule.target → rest.rulesFor f = book.rulesFor f

namespace RuleBook

variable {book rest : RuleBook} {id : RuleId} {rule : Rule}

/-- What is taken out of a book is what is found in it. -/
theorem map_fst_remove? (book : RuleBook) (id : RuleId)
    : (book.remove? id).map (·.1) = book.find? id := by
  cases removed : book.remove? id with
  | none =>
      have absent := remove?_eq_none_iff.mp removed
      exact (List.find?_eq_none.mpr fun r member => by simpa using absent r member).symm
  | some p => exact (remove?_eq_some removed).1.symm

/-- The lists of a filed book are parts of the list of all rules, so one of them loses the rule. -/
theorem Filed.takenFrom (filed : book.Filed) (removed : book.remove? id = some (rule, rest))
    : rule.id = id ∧ TakenFrom rule book rest := by
  obtain ⟨found, left⟩ := remove?_eq_some removed
  obtain ⟨same, taken⟩ := takenOut_of_find? found
  rw [← left] at taken
  have restFiled := filed.remove? removed
  refine ⟨same, taken, ?_, fun f different => ?_⟩
  · rw [filed.rulesFor_eq, restFiled.rulesFor_eq]
    exact taken.filter (by simp)
  · rw [filed.rulesFor_eq, restFiled.rulesFor_eq]
    exact taken.filter_eq (by simpa using different.symm)

/-- A rule with a new number is taken out again as if it had not been entered. -/
theorem Filed.remove?_insert (filed : book.Filed) (fresh : ∀ r ∈ book.rules, r.id ≠ rule.id)
    : (book.insert rule).remove? rule.id = some (rule, book) := by
  have entered := rules_insert_perm book rule
  have filedThen := filed.insert rule
  cases removed : (book.insert rule).remove? rule.id with
  | none =>
      have absent := remove?_eq_none_iff.mp removed rule (entered.mem_iff.mpr List.mem_cons_self)
      exact absurd rfl absent
  | some p =>
      obtain ⟨first, rest⟩ := p
      obtain ⟨same, taken⟩ := filedThen.takenFrom removed
      obtain rfl : first = rule := by
        have member := List.mem_of_find?_eq_some (remove?_eq_some removed).1
        rcases List.mem_cons.mp (entered.mem_iff.mp member) with equal | old
        · exact equal
        · exact absurd same (fresh first old)
      obtain rfl : rest = book := by
        apply (filedThen.remove? removed).ext filed
        intro f
        by_cases own : f = first.target
        · have last := taken.own
          rw [rulesFor_insert, if_pos rfl] at last
          rw [own]
          exact last.eq_of_append_singleton fun r member =>
            fresh r (filed.mem_rulesFor.mp member).1
        · rw [taken.others f own, rulesFor_insert, if_neg own]
      rfl

end RuleBook

-- -----------------------------------------------------------------------------------------------
-- Histories

/-- What can be done to a book. -/
inductive BookStep where
  | insert (rule : Rule)
  | remove (id : RuleId)
  | sort

/-- A book with the rules that were entered and those that were taken out, first to last. -/
structure BookHistory where
  book : RuleBook
  entered : List Rule
  removed : List Rule

namespace BookHistory

def start : BookHistory where
  book := ∅
  entered := []
  removed := []

def step (h : BookHistory) : BookStep → BookHistory
  | .insert rule => { h with book := h.book.insert rule, entered := h.entered ++ [rule] }
  | .remove id =>
      match h.book.remove? id with
      | some (rule, rest) => { h with book := rest, removed := h.removed ++ [rule] }
      | none => h
  | .sort => { h with book := h.book.sorted }

def after (steps : List BookStep) : BookHistory :=
  steps.foldl step start

/-- The rules of the book are those that were entered and not taken out. -/
structure Accounted (h : BookHistory) : Prop where
  filed : h.book.Filed
  rules : h.entered.Perm (h.book.rules ++ h.removed)

theorem accounted_start : start.Accounted where
  filed := RuleBook.filed_empty
  rules := .rfl

theorem Accounted.step {h : BookHistory} (accounted : h.Accounted) (s : BookStep)
    : (h.step s).Accounted := by
  obtain ⟨filed, rules⟩ := accounted
  cases s with
  | insert rule =>
      refine ⟨filed.insert rule, ?_⟩
      have earlier : (h.entered ++ [rule]).Perm (rule :: h.book.rules ++ h.removed) :=
        (List.perm_append_singleton rule h.entered).trans (rules.cons rule)
      exact earlier.trans ((RuleBook.rules_insert_perm h.book rule).symm.append_right h.removed)
  | remove id =>
      simp only [BookHistory.step]
      split
      next rule rest removed =>
        refine ⟨filed.remove? removed, ?_⟩
        have apart : h.entered.Perm (rest.rules ++ rule :: h.removed) :=
          (rules.trans ((RuleBook.perm_of_remove? removed).append_right h.removed)).trans
            List.perm_middle.symm
        exact apart.trans ((List.perm_append_singleton rule h.removed).symm.append_left rest.rules)
      next => exact ⟨filed, rules⟩
  | sort =>
      refine ⟨filed.sorted, ?_⟩
      exact rules.trans ((RuleBook.rules_sorted_perm h.book).symm.append_right h.removed)

theorem accounted_after (steps : List BookStep) : (after steps).Accounted :=
  List.foldlRecOn steps step accounted_start fun _ accounted s _ => accounted.step s

/-- To take a number out changes nothing exactly when no rule has it. -/
theorem step_remove_eq_self_iff {h : BookHistory} {id : RuleId}
    : h.step (.remove id) = h ↔ ∀ rule ∈ h.book.rules, rule.id ≠ id := by
  rw [← RuleBook.remove?_eq_none_iff, step]
  cases removed : h.book.remove? id with
  | none => simp
  | some p =>
      obtain ⟨rule, rest⟩ := p
      have longer : ¬ { h with book := rest, removed := h.removed ++ [rule] } = h := by
        intro same
        have lengths := congrArg (fun h => h.removed.length) same
        simp at lengths
      simpa using longer

/-- What holds of a book at any point of a history, and of the next thing that is done to it. -/
structure Sound (h : BookHistory) : Prop where
  nonempty : ∀ p ∈ h.book.filed.entries, p.2 ≠ []
  ownTarget : ∀ p ∈ h.book.filed.entries, ∀ rule ∈ p.2, rule.target = p.1
  accounted : h.entered.Perm (h.book.rules ++ h.removed)
  found : ∀ id, (h.book.remove? id).map (·.1) = h.book.find? id
  missing : ∀ id, h.book.remove? id = none ↔ ∀ rule ∈ h.book.rules, rule.id ≠ id
  idle : ∀ id, h.step (.remove id) = h ↔ ∀ rule ∈ h.book.rules, rule.id ≠ id
  taken
    : ∀ id rule rest,
        h.book.remove? id = some (rule, rest) → rule.id = id ∧ h.book.TakenFrom rule rest
  restored
    : ∀ rule,
        (∀ r ∈ h.book.rules, r.id ≠ rule.id)
        → (h.book.insert rule).remove? rule.id = some (rule, h.book)
  sorted : ∀ f, StablySorted (h.book.rulesFor f) (h.book.sorted.rulesFor f)

/-- Every history of a book that began empty is sound, by induction on what was done. -/
theorem sound_after (steps : List BookStep) : (after steps).Sound := by
  obtain ⟨filed, rules⟩ := accounted_after steps
  exact {
    nonempty := filed.nonempty,
    ownTarget := filed.ownTarget,
    accounted := rules,
    found := RuleBook.map_fst_remove? _,
    missing := fun _ => RuleBook.remove?_eq_none_iff,
    idle := fun _ => step_remove_eq_self_iff,
    taken := fun _ _ _ removed => filed.takenFrom removed,
    restored := fun _ fresh => filed.remove?_insert fresh,
    sorted := fun f => by
      rw [RuleBook.rulesFor_sorted]
      exact stablySorted_sortByPriority _
  }

end BookHistory

end MeasureSheet
