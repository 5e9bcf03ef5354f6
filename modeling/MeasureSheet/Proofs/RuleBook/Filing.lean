import MeasureSheet.Proofs.FieldMap.Entries
import MeasureSheet.RuleBook

/-! Filing of rules. A book keeps every rule that was entered, under the rule's own target, and
taking a rule out removes one occurrence and moves nothing else.
-/

namespace MeasureSheet

-- -----------------------------------------------------------------------------------------------
-- Lists without the first rule that passes a test

/-- What is found in a list is what is left out of it, and nothing else is moved. -/
theorem exists_parts_of_find? {p : Rule → Bool} {rules : List Rule} {rule : Rule}
    (found : rules.find? p = some rule)
    : ∃ front back,
        rules = front ++ rule :: back ∧ rules.eraseP p = front ++ back ∧ ∀ r ∈ front, ¬ p r := by
  obtain ⟨passes, front, back, rfl, others⟩ := List.find?_eq_some_iff_append.mp found
  have fails : ∀ r ∈ front, ¬ p r := fun r member => by simpa using others r member
  refine ⟨front, back, rfl, ?_, fails⟩
  rw [List.eraseP_append_right _ fails, List.eraseP_cons_of_pos passes]

theorem perm_cons_eraseP {p : Rule → Bool} {rules : List Rule} {rule : Rule}
    (found : rules.find? p = some rule)
    : rules.Perm (rule :: rules.eraseP p) := by
  obtain ⟨front, back, parts, left, -⟩ := exists_parts_of_find? found
  rw [left, parts]
  exact List.perm_middle

/-- When no number is repeated, the first rule of a number is the only one. -/
theorem eraseP_id_eq_filter {rules : List Rule} (unique : (rules.map (·.id)).Nodup) {rule : Rule}
    (member : rule ∈ rules)
    : (rules.eraseP fun r => r.id = rule.id) = rules.filter (· ≠ rule) := by
  induction rules with
  | nil => rfl
  | cons r rest ih =>
      obtain ⟨absent, unique⟩ := List.nodup_cons.mp unique
      by_cases same : r.id = rule.id
      · obtain rfl : r = rule := by
          rcases List.mem_cons.mp member with first | later
          · exact first.symm
          · exact absurd (List.mem_map.mpr ⟨rule, later, same.symm⟩) absent
        have others : ∀ s ∈ rest, s ≠ r := by
          rintro s later rfl
          exact absent (List.mem_map_of_mem later)
        simpa using (List.filter_eq_self.mpr (by simpa using others)).symm
      · have different : r ≠ rule := fun equal => same (congrArg Rule.id equal)
        have later := (List.mem_cons.mp member).resolve_left (Ne.symm different)
        simp [same, different, ih unique later]

namespace RuleBook

-- -----------------------------------------------------------------------------------------------
-- Books whose rules are filed under their targets

/-- Every target of the book has rules, and each rule stands under its own target. -/
structure Filed (book : RuleBook) : Prop where
  nonempty : ∀ p ∈ book.filed.entries, p.2 ≠ []
  ownTarget : ∀ p ∈ book.filed.entries, ∀ r ∈ p.2, r.target = p.1

theorem rules_eq_flatMap (book : RuleBook) : book.rules = book.filed.entries.flatMap (·.2) :=
  rfl

theorem mem_rules {book : RuleBook} {r : Rule}
    : r ∈ book.rules ↔ ∃ p ∈ book.filed.entries, r ∈ p.2 := by
  rw [rules_eq_flatMap, List.mem_flatMap]

/-- The rules under a key are those of the list that derive it, as keys are not repeated. -/
theorem filter_entries {f : Field} {entries : List (Field × List Rule)}
    (ascending : entries.Pairwise fun p q => p.1 < q.1)
    (own : ∀ p ∈ entries, ∀ r ∈ p.2, r.target = p.1)
    : (entries.flatMap (·.2)).filter (fun r => r.target = f)
      = (FieldMap.lookup f entries).getD [] := by
  induction entries with
  | nil => rfl
  | cons p rest ih =>
      obtain ⟨above, restAscending⟩ := List.pairwise_cons.mp ascending
      have restOwn : ∀ q ∈ rest, ∀ r ∈ q.2, r.target = q.1 :=
        fun q member => own q (List.mem_cons_of_mem _ member)
      have headOwn := own p List.mem_cons_self
      rw [List.flatMap_cons, List.filter_append, ih restAscending restOwn]
      by_cases same : f = p.1
      · have absent : FieldMap.lookup f rest = none :=
          FieldMap.lookup_eq_none_of_below fun q member => same ▸ above q member
        have all : p.2.filter (fun r => r.target = f) = p.2 :=
          List.filter_eq_self.mpr fun r member => by simp [headOwn r member, same]
        simp [FieldMap.lookup, ← same, absent, all]
      · have none : p.2.filter (fun r => r.target = f) = [] :=
          List.filter_eq_nil_iff.mpr fun r member => by simp [headOwn r member, Ne.symm same]
        simp [FieldMap.lookup, same, none]

/-- In a filed book the rules for a target are the rules of the book that derive it. -/
theorem Filed.rulesFor_eq {book : RuleBook} (filed : book.Filed) (target : Field)
    : book.rulesFor target = book.rules.filter fun r => r.target = target :=
  (filter_entries book.filed.ascending filed.ownTarget).symm

theorem Filed.mem_rulesFor {book : RuleBook} (filed : book.Filed) {target : Field} {r : Rule}
    : r ∈ book.rulesFor target ↔ r ∈ book.rules ∧ r.target = target := by
  simp [filed.rulesFor_eq]

/-- A filed book holds exactly the targets of its rules, as no target is without rules. -/
theorem Filed.hasTarget_iff {book : RuleBook} (filed : book.Filed) {target : Field}
    : book.hasTarget target ↔ ∃ r ∈ book.rules, r.target = target := by
  constructor
  · intro has
    obtain ⟨rules, found⟩ := Option.isSome_iff_exists.mp has
    have entry := FieldMap.find?_eq_some_iff.mp found
    obtain ⟨r, member⟩ := List.exists_mem_of_ne_nil _ (filed.nonempty _ entry)
    exact ⟨r, mem_rules.mpr ⟨_, entry, member⟩, filed.ownTarget _ entry r member⟩
  · intro h
    obtain ⟨r, member, rfl⟩ := h
    obtain ⟨p, entry, inside⟩ := mem_rules.mp member
    have own := filed.ownTarget p entry r inside
    exact Option.isSome_iff_exists.mpr ⟨p.2, FieldMap.find?_eq_some_iff.mpr (own ▸ entry)⟩

/-- Filed books are equal when they hold the same rules for every target. -/
theorem Filed.ext {book book' : RuleBook} (filed : book.Filed) (filed' : book'.Filed)
    (same : ∀ f, book.rulesFor f = book'.rulesFor f)
    : book = book' := by
  have found {b : RuleBook} (filed : b.Filed) (f : Field)
      : b.filed.find? f = if b.rulesFor f = [] then none else some (b.rulesFor f) := by
    unfold rulesFor
    cases entry : b.filed.find? f with
    | none => rfl
    | some rules => simp [filed.nonempty _ (FieldMap.find?_eq_some_iff.mp entry)]
  have maps : book.filed = book'.filed :=
    FieldMap.ext_find? fun f => by rw [found filed, found filed', same]
  exact RuleBook.mk.injEq .. ▸ maps

-- -----------------------------------------------------------------------------------------------
-- Entering rules

theorem filed_empty : (∅ : RuleBook).Filed where
  nonempty _ member := absurd member List.not_mem_nil
  ownTarget _ member := absurd member List.not_mem_nil

/-- An entered rule is added to the rules of the book, at the end of its target's list. -/
theorem rules_insert_perm (book : RuleBook) (rule : Rule)
    : (book.insert rule).rules.Perm (rule :: book.rules) := by
  obtain ⟨front, back, entries, inserted, -⟩ := book.filed.exists_surroundings rule.target
  have previous : ((book.filed.find? rule.target).toList.map (rule.target, ·)).flatMap (·.2)
      = book.rulesFor rule.target := by
    unfold rulesFor
    cases book.filed.find? rule.target <;> simp
  simp only [rules_eq_flatMap, insert, inserted]
  rw [entries]
  simp only [List.flatMap_append, List.flatMap_cons, previous, List.append_assoc,
    List.singleton_append]
  exact (List.perm_middle.append_left _).trans List.perm_middle

/-- Refiling leaves no entry but the new one, unless it is empty, and those that were there. -/
theorem entry_of_refile {book : RuleBook} {target : Field} {rules : List Rule}
    {p : Field × List Rule} (member : p ∈ (book.refile target rules).filed.entries)
    : p = (target, rules) ∧ rules ≠ [] ∨ p ∈ book.filed.entries := by
  obtain ⟨front, back, entries, inserted, erased⟩ := book.filed.exists_surroundings target
  have old (outside : p ∈ front ∨ p ∈ back) : p ∈ book.filed.entries := by
    rw [entries, List.append_assoc]
    rcases outside with inFront | inBack
    · exact List.mem_append_left _ inFront
    · exact List.mem_append_right _ (List.mem_append_right _ inBack)
  unfold refile at member
  split at member
  · rw [erased] at member
    exact Or.inr (old (List.mem_append.mp member))
  next nonempty =>
    simp only [inserted, List.mem_append, List.mem_cons] at member
    rcases member with inFront | same | inBack
    · exact Or.inr (old (Or.inl inFront))
    · exact Or.inl ⟨same, fun empty => nonempty (List.isEmpty_iff.mpr empty)⟩
    · exact Or.inr (old (Or.inr inBack))

/-- Refiling keeps a book filed when the list derives its target. -/
theorem Filed.refile {book : RuleBook} (filed : book.Filed) {target : Field} {rules : List Rule}
    (own : ∀ r ∈ rules, r.target = target)
    : (book.refile target rules).Filed := by
  constructor
  · intro p member
    rcases entry_of_refile member with ⟨rfl, nonempty⟩ | old
    · exact nonempty
    · exact filed.nonempty p old
  · intro p member
    rcases entry_of_refile member with ⟨rfl, -⟩ | old
    · exact own
    · exact filed.ownTarget p old

theorem insert_eq_refile (book : RuleBook) (rule : Rule)
    : book.insert rule = book.refile rule.target (book.rulesFor rule.target ++ [rule]) := by
  simp [insert, refile]

theorem Filed.insert {book : RuleBook} (filed : book.Filed) (rule : Rule)
    : (book.insert rule).Filed := by
  rw [insert_eq_refile]
  apply filed.refile
  intro r member
  rcases List.mem_append.mp member with earlier | last
  · exact (filed.mem_rulesFor.mp earlier).2
  · exact (List.mem_singleton.mp last) ▸ rfl

theorem rulesFor_insert (book : RuleBook) (rule : Rule) (target : Field)
    : (book.insert rule).rulesFor target
      = if target = rule.target then book.rulesFor target ++ [rule]
        else book.rulesFor target := by
  unfold rulesFor insert
  rw [FieldMap.find?_insert]
  by_cases same : target = rule.target <;> simp [same, rulesFor]

theorem filed_ofRules (rules : List Rule) : (ofRules rules).Filed :=
  List.foldlRecOn rules insert filed_empty fun _ filed rule _ => filed.insert rule

/-- A book of rules holds each of them as often as it was entered. -/
theorem rules_ofRules_perm (rules : List Rule) : (ofRules rules).rules.Perm rules := by
  have general (book : RuleBook)
      : (rules.foldl insert book).rules.Perm (book.rules ++ rules) := by
    induction rules generalizing book with
    | nil => simp
    | cons rule rest ih =>
        refine (ih (book.insert rule)).trans ?_
        exact ((rules_insert_perm book rule).append_right rest).trans List.perm_middle.symm
  exact general ∅

/-- The rules of one target stay in the order in which they were entered. -/
theorem rulesFor_ofRules (rules : List Rule) (target : Field)
    : (ofRules rules).rulesFor target = rules.filter fun r => r.target = target := by
  have general (book : RuleBook)
      : (rules.foldl insert book).rulesFor target
        = book.rulesFor target ++ rules.filter fun r => r.target = target := by
    induction rules generalizing book with
    | nil => simp
    | cons rule rest ih =>
        rw [List.foldl_cons, ih, rulesFor_insert]
        by_cases same : target = rule.target
        · simp [same]
        · simp [same, Ne.symm same]
  exact general ∅

-- -----------------------------------------------------------------------------------------------
-- Taking rules out

/-- What a search finds does not stand before its only occurrence. -/
private theorem find?_eq_none_of_front {α : Type} {p : α → Bool} {front back : List α} {x : α}
    (unique : (front ++ x :: back).Nodup) (found : (front ++ x :: back).find? p = some x)
    : front.find? p = none := by
  cases early : front.find? p with
  | none => rfl
  | some y =>
      rw [List.find?_append, early] at found
      obtain rfl : y = x := Option.some.inj found
      have apart := (List.nodup_append.mp unique).2.2
      exact absurd rfl (apart y (List.mem_of_find?_eq_some early) y List.mem_cons_self)

/-- Taking a rule out finds the first rule of its number, and leaves all others in place: the first
entry that holds the number is the one that changes.
-/
theorem remove?_eq_some {book rest : RuleBook} {id : RuleId} {rule : Rule}
    (removed : book.remove? id = some (rule, rest))
    : book.find? id = some rule ∧ rest.rules = book.rules.eraseP fun r => r.id = id := by
  unfold remove? at removed
  split at removed
  · simp at removed
  next target rules foundEntry =>
    split at removed
    · simp at removed
    next first foundRule =>
      obtain ⟨rfl, rfl⟩ := Prod.mk.inj (Option.some.inj removed)
      have entry : book.filed.find? target = some rules :=
        FieldMap.find?_eq_some_iff.mpr (List.mem_of_find?_eq_some foundEntry)
      obtain ⟨front, back, entries, inserted, erased⟩ := book.filed.exists_surroundings target
      simp only [entry, Option.toList_some, List.map_cons, List.map_nil, List.append_assoc,
        List.singleton_append] at entries
      -- The entry found is the first that holds the number, and it stands only there.
      have before : ∀ r ∈ front.flatMap (·.2), ¬ r.id = id := by
        have missed := find?_eq_none_of_front (entries ▸ book.filed.nodup_entries)
          (entries ▸ foundEntry)
        intro r member same
        obtain ⟨p, inFront, inside⟩ := List.mem_flatMap.mp member
        exact List.find?_eq_none.mp missed p inFront
          (List.any_eq_true.mpr ⟨r, inside, decide_eq_true same⟩)
      have all : book.rules = front.flatMap (·.2) ++ (rules ++ back.flatMap (·.2)) := by
        rw [rules_eq_flatMap, entries, List.flatMap_append, List.flatMap_cons]
      have left : (book.refile target (rules.eraseP fun r => r.id = id)).rules
          = front.flatMap (·.2) ++ ((rules.eraseP fun r => r.id = id) ++ back.flatMap (·.2)) := by
        unfold refile
        split
        · next empty => simp [rules_eq_flatMap, erased, List.isEmpty_iff.mp empty]
        · simp [rules_eq_flatMap, inserted]
      constructor
      · have missed : (front.flatMap (·.2)).find? (fun r => r.id = id) = none :=
          List.find?_eq_none.mpr fun r member => by simpa using before r member
        rw [find?, all, List.find?_append, List.find?_append, missed, foundRule]
        rfl
      · have missed : ∀ r ∈ front.flatMap (·.2), ¬ decide (r.id = id) := by simpa using before
        rw [left, all, List.eraseP_append_right _ missed,
          List.eraseP_append_left (List.find?_some foundRule) _
            (List.mem_of_find?_eq_some foundRule)]

/-- A number can be taken out exactly when some rule has it. -/
theorem remove?_eq_none_iff {book : RuleBook} {id : RuleId}
    : book.remove? id = none ↔ ∀ r ∈ book.rules, r.id ≠ id := by
  constructor
  · intro missing r member same
    obtain ⟨p, entry, inside⟩ := mem_rules.mp member
    have holds : p.2.any (fun r => r.id = id) := List.any_eq_true.mpr ⟨r, inside, by simpa⟩
    unfold remove? at missing
    split at missing
    next nowhere => exact List.find?_eq_none.mp nowhere p entry holds
    next target rules found =>
      have holds : rules.any (fun r => r.id = id) := by simpa using List.find?_some found
      obtain ⟨s, member, same⟩ := List.any_eq_true.mp holds
      split at missing
      next absent => exact List.find?_eq_none.mp absent s member same
      next => simp at missing
  · intro absent
    have nowhere : book.filed.entries.find? (fun p => p.2.any fun r => r.id = id) = none := by
      rw [List.find?_eq_none]
      intro p entry holds
      obtain ⟨r, member, same⟩ := List.any_eq_true.mp holds
      exact absent r (mem_rules.mpr ⟨p, entry, member⟩) (by simpa using same)
    rw [remove?, nowhere]

theorem perm_of_remove? {book rest : RuleBook} {id : RuleId} {rule : Rule}
    (removed : book.remove? id = some (rule, rest))
    : book.rules.Perm (rule :: rest.rules) := by
  obtain ⟨found, left⟩ := remove?_eq_some removed
  rw [left]
  exact perm_cons_eraseP found

/-- Taking a rule out keeps the book filed: a list that runs empty leaves with its target. -/
theorem Filed.remove? {book rest : RuleBook} {id : RuleId} {rule : Rule} (filed : book.Filed)
    (removed : book.remove? id = some (rule, rest))
    : rest.Filed := by
  unfold RuleBook.remove? at removed
  split at removed
  · simp at removed
  next target rules foundEntry =>
    split at removed
    · simp at removed
    next first foundRule =>
      obtain ⟨-, rfl⟩ := Prod.mk.inj (Option.some.inj removed)
      have entry := List.mem_of_find?_eq_some foundEntry
      exact filed.refile fun r member =>
        filed.ownTarget _ entry r (List.eraseP_sublist.subset member)

/-- Taking a rule out of a book of distinct rules leaves the book of all others. -/
theorem ofRules_of_remove? {rules : List Rule} (unique : (rules.map (·.id)).Nodup) {id : RuleId}
    {rule : Rule} {rest : RuleBook} (removed : (ofRules rules).remove? id = some (rule, rest))
    : rule ∈ rules ∧ rest = ofRules (rules.filter (· ≠ rule)) := by
  have perm := rules_ofRules_perm rules
  obtain ⟨found, left⟩ := remove?_eq_some removed
  have member := List.mem_of_find?_eq_some found
  obtain rfl : rule.id = id := by simpa using List.find?_some found
  refine ⟨perm.mem_iff.mp member, ?_⟩
  have filed := filed_ofRules rules
  apply (filed.remove? removed).ext (filed_ofRules _)
  intro f
  have swap (l : List Rule)
      : (l.filter (· ≠ rule)).filter (·.target = f)
        = (l.filter (·.target = f)).filter (· ≠ rule) := by
    simp only [List.filter_filter, Bool.and_comm]
  have kept : rest.rules = (ofRules rules).rules.filter (· ≠ rule) := by
    rw [left, eraseP_id_eq_filter ((perm.map _).nodup_iff.mpr unique) member]
  calc rest.rulesFor f
    _ = ((ofRules rules).rules.filter (· ≠ rule)).filter (·.target = f) := by
        rw [(filed.remove? removed).rulesFor_eq, kept]
    _ = ((ofRules rules).rulesFor f).filter (· ≠ rule) := by
        rw [swap, filed.rulesFor_eq]
    _ = (rules.filter (· ≠ rule)).filter (·.target = f) := by
        rw [swap, rulesFor_ofRules]
    _ = (ofRules (rules.filter (· ≠ rule))).rulesFor f :=
        (rulesFor_ofRules _ f).symm

end RuleBook

end MeasureSheet
