import MeasureSheet.Proofs.Compilation.Accounting
import MeasureSheet.Proofs.Compilation.Permutation
import MeasureSheet.Proofs.CycleRemoval.Justification

/-! Sheets of the rows that survived. Rows that were rejected or given up leave no trace in a table:
what is left of a sheet compiles to the same table, with its rules numbered anew.
-/

namespace MeasureSheet

-- -----------------------------------------------------------------------------------------------
-- Rows and their places

/-- The rule that a row at a place is read as. -/
def readAt? (p : Row × Nat) : Option Rule :=
  (Rule.ofRow (.ofRow p.2) p.1).toOption

theorem readAt?_eq_some_iff {p : Row × Nat} {r : Rule}
    : readAt? p = some r ↔ Rule.ofRow (.ofRow p.2) p.1 = .ok r := by
  unfold readAt?
  cases Rule.ofRow (.ofRow p.2) p.1 <;> simp [Except.toOption]

theorem readRules_eq_filterMap (rows : List Row)
    : readRules rows = rows.zipIdx.filterMap readAt? := by
  rw [readRules, readRows, List.filterMap_map]
  congr 1
  funext p
  simp only [Function.comp_apply, ReadRow.rule?, readAt?]
  cases Rule.ofRow (.ofRow p.2) p.1 <;> rfl

/-- At another place a row is read as the same rule under another number. -/
theorem readAt?_renumber {number : RuleId → RuleId} {row : Row} {place place' : Nat}
    (moved : number (.ofRow place) = .ofRow place')
    : readAt? (row, place') = (readAt? (row, place)).map (.renumber number) := by
  simp only [readAt?, ← moved, Rule.ofRow_renumber]
  cases Rule.ofRow (.ofRow place) row <;> rfl

/-- Rows taken from their places and put together are read as the same rules, numbered anew. -/
theorem readRules_of_moved {number : RuleId → RuleId} {places : List (Row × Nat)}
    (moved
      : ∀ (i : Nat) (p : Row × Nat), places[i]? = some p → number (.ofRow p.2) = .ofRow i)
    : readRules (places.map (·.1)) = (places.filterMap readAt?).map (.renumber number) := by
  have apart : places = places.zipIdx.map (·.1) := (List.zipIdx_map_fst 0 places).symm
  have together : (places.map (·.1)).zipIdx = places.zipIdx.map fun q => (q.1.1, q.2) := by
    rw [List.zipIdx_map]
    rfl
  conv_rhs => rw [apart]
  rw [readRules_eq_filterMap, together, List.filterMap_map, List.filterMap_map, List.map_filterMap]
  refine List.filterMap_congr fun q member => ?_
  exact readAt?_renumber (moved q.2 q.1 (List.mem_zipIdx_iff_getElem?.mp member))

-- -----------------------------------------------------------------------------------------------
-- What survives of a sheet

namespace RuleTable

variable (t : RuleTable)

/-- The rows of a sheet whose rules are in the table, with their places. -/
def survivingPlaces (rows : List Row) : List (Row × Nat) :=
  rows.zipIdx.filter fun p => (t.findRule? (.ofRow p.2)).isSome

/-- The rows of a sheet whose rules are in the table, in their order. -/
def survivors (rows : List Row) : List Row :=
  (t.survivingPlaces rows).map (·.1)

/-- How many rules of the table have lower numbers. -/
def rank (id : RuleId) : RuleId :=
  .ofRow (t.book.rules.countP fun r => r.id.number < id.number)

variable {t}

theorem isSome_findRule?_iff {id : RuleId}
    : (t.findRule? id).isSome ↔ ∃ r ∈ t.book.rules, r.id = id := by
  simp [findRule?, RuleBook.find?]

theorem mem_survivingPlaces {rows : List Row} {p : Row × Nat}
    : p ∈ t.survivingPlaces rows
      ↔ rows[p.2]? = some p.1 ∧ ∃ r ∈ t.book.rules, r.id = .ofRow p.2 := by
  rw [survivingPlaces, List.mem_filter, isSome_findRule?_iff, List.mem_zipIdx_iff_getElem?]

theorem pairwise_survivingPlaces (t : RuleTable) (rows : List Row)
    : ((t.survivingPlaces rows).map (·.2)).Pairwise (· < ·) := by
  have places : (rows.zipIdx.map (·.2)).Pairwise (· < ·) := by
    rw [List.zipIdx_map_snd]
    exact List.pairwise_lt_range'
  exact places.sublist (List.filter_sublist.map _)

/-- Rules with lower numbers have lower ranks, as they are counted for the later ones. -/
theorem rank_lt (bounded : t.book.rules.length ≤ 2 ^ 32) {r s : Rule} (present : r ∈ t.book.rules)
    (present' : s ∈ t.book.rules) (before : r.id.number < s.id.number)
    : (t.rank r.id).number < (t.rank s.id).number := by
  obtain ⟨front, back, split⟩ := List.append_of_mem present
  have apart : t.book.rules.Perm (r :: (front ++ back)) := split ▸ List.perm_middle
  have own : ¬ r.id.number < r.id.number := UInt32.lt_irrefl _
  have others
      : ((front ++ back).countP fun q => q.id.number < r.id.number)
        ≤ (front ++ back).countP fun q => q.id.number < s.id.number := by
    refine List.countP_mono_left fun q _ lower => ?_
    exact decide_eq_true (UInt32.lt_trans (of_decide_eq_true lower) before)
  have inside
      : (t.book.rules.countP fun q => q.id.number < s.id.number) < t.book.rules.length :=
    List.countP_lt_length_iff.mpr ⟨s, present', decide_eq_false (UInt32.lt_irrefl _)⟩
  refine RuleId.ofRow_lt ?_ (by omega)
  rw [apart.countP_eq, apart.countP_eq, List.countP_cons, List.countP_cons]
  simp only [own, before, decide_true, decide_false, Bool.false_eq_true, if_true, if_false]
  omega

end RuleTable

/-- The place of a number in an ascending list is the count of lower ones, by list induction. -/
theorem countP_lt_of_ascending {numbers : List Nat} (ascending : numbers.Pairwise (· < ·))
    {i n : Nat} (found : numbers[i]? = some n)
    : numbers.countP (· < n) = i := by
  induction numbers generalizing i with
  | nil => simp at found
  | cons first rest ih =>
      obtain ⟨above, ascending⟩ := List.pairwise_cons.mp ascending
      cases i with
      | zero =>
          obtain rfl : first = n := by simpa using found
          have none : rest.countP (· < first) = 0 :=
            List.countP_eq_zero.mpr fun m member => by simpa using (above m member).le
          simp [none]
      | succ i =>
          have later : rest[i]? = some n := by simpa using found
          have below := above n (List.mem_of_getElem? later)
          simp [ih ascending later, below]

section

variable {choose : RemovalPolicy} {rows : List Row} {descriptions : List (String × String)}
  {c : CompiledSheet}

/-- What breaking cycles leaves of a sheet is the book of the rules that were not given up. -/
theorem book_eq_of_compile (bounded : rows.length ≤ 2 ^ 32)
    (compiled : compile choose rows descriptions = .ok c)
    : (settledRules choose rows).book
      = .ofRules (rulesWithout (readRules rows) c.report.removed) := by
  obtain ⟨order, -, -, rfl⟩ := compile_eq_ok_iff.mp compiled
  exact (course_settledRules choose rows).book_eq (rowsAscend_readRules bounded).nodup

/-- The table holds the rules that were read and not given up. -/
theorem rules_perm_of_compile (bounded : rows.length ≤ 2 ^ 32)
    (compiled : compile choose rows descriptions = .ok c)
    : c.table.book.rules.Perm (rulesWithout (readRules rows) c.report.removed) := by
  have left := book_eq_of_compile bounded compiled
  obtain ⟨order, -, -, rfl⟩ := compile_eq_ok_iff.mp compiled
  refine (RuleBook.rules_sorted_perm _).trans ?_
  rw [left]
  exact RuleBook.rules_ofRules_perm _

/-- A row survives when the rule that it is read as is in the table. -/
theorem mem_survivingPlaces_of_compile (bounded : rows.length ≤ 2 ^ 32)
    (compiled : compile choose rows descriptions = .ok c) {p : Row × Nat}
    : p ∈ c.table.survivingPlaces rows
      ↔ rows[p.2]? = some p.1 ∧ ∃ r ∈ c.table.book.rules, readAt? p = some r := by
  rw [RuleTable.mem_survivingPlaces]
  refine and_congr_right fun present => exists_congr fun r => and_congr_right fun member => ?_
  have left := (rules_perm_of_compile bounded compiled).mem_iff.mp member
  have read := (mem_rulesWithout.mp left).1
  rw [readAt?_eq_some_iff, ← mem_readRules_at bounded present]
  simp [read]

/-- The rules that are left of a sheet are those of the rows that survive, in their order. -/
theorem rulesWithout_eq_filterMap (bounded : rows.length ≤ 2 ^ 32)
    (compiled : compile choose rows descriptions = .ok c)
    : rulesWithout (readRules rows) c.report.removed
      = (c.table.survivingPlaces rows).filterMap readAt? := by
  have ascend := rowsAscend_readRules bounded
  have left : (rulesWithout (readRules rows) c.report.removed).Sublist (readRules rows) :=
    List.filter_sublist
  have survived
      : ((c.table.survivingPlaces rows).filterMap readAt?).Sublist (readRules rows) := by
    rw [readRules_eq_filterMap]
    exact List.filter_sublist.filterMap readAt?
  refine (ascend.sublist left).eq_of_mem_iff (ascend.sublist survived) fun r => ?_
  have perm := rules_perm_of_compile bounded compiled
  rw [← perm.mem_iff, List.mem_filterMap]
  simp only [mem_survivingPlaces_of_compile bounded compiled]
  constructor
  · intro member
    have read := left.subset (perm.subset member)
    rw [readRules_eq_filterMap] at read
    obtain ⟨p, placed, own⟩ := List.mem_filterMap.mp read
    exact ⟨p, ⟨List.mem_zipIdx_iff_getElem?.mp placed, r, member, own⟩, own⟩
  · intro h
    obtain ⟨p, ⟨-, r', member, own'⟩, own⟩ := h
    rwa [Option.some.inj (own.symm.trans own')]

/-- The rules of survivors are numbered by how many survivors stand before. -/
theorem rank_survivingPlaces (bounded : rows.length ≤ 2 ^ 32)
    (compiled : compile choose rows descriptions = .ok c) {i : Nat} {p : Row × Nat}
    (found : (c.table.survivingPlaces rows)[i]? = some p)
    : c.table.rank (.ofRow p.2) = .ofRow i := by
  let places := c.table.survivingPlaces rows
  have inside {q : Row × Nat} (survives : q ∈ places) : q.2 < 2 ^ 32 := by
    obtain ⟨present, -⟩ := RuleTable.mem_survivingPlaces.mp survives
    exact Nat.lt_of_lt_of_le (List.getElem?_eq_some_iff.mp present).1 bounded
  have numbers
      : (places.filterMap readAt?).map (·.id.number.toNat) = places.map (·.2) := by
    rw [List.map_filterMap]
    refine List.filterMap_eq_map_iff_forall_eq_some.mpr fun q survives => ?_
    obtain ⟨-, r, -, own⟩ := (mem_survivingPlaces_of_compile bounded compiled).mp survives
    rw [own, Option.map_some, Rule.id_of_ofRow (readAt?_eq_some_iff.mp own),
      RuleId.toNat_ofRow (inside survives)]
  have number := RuleId.toNat_ofRow (inside (List.mem_of_getElem? found))
  have lower
      : (c.table.book.rules.countP fun r => r.id.number < (RuleId.ofRow p.2).number)
        = (places.map (·.2)).countP (· < p.2) := by
    rw [(rules_perm_of_compile bounded compiled).countP_eq,
      rulesWithout_eq_filterMap bounded compiled, ← numbers, List.countP_map]
    simp only [UInt32.lt_iff_toNat_lt, number]
    rfl
  have place : (places.map (·.2))[i]? = some p.2 := by simp [places, found]
  rw [RuleTable.rank, lower,
    countP_lt_of_ascending (RuleTable.pairwise_survivingPlaces c.table rows) place]

/-- The rows of survivors can all be read. -/
theorem rejectedRows_survivors (bounded : rows.length ≤ 2 ^ 32)
    (compiled : compile choose rows descriptions = .ok c)
    : rejectedRows (c.table.survivors rows) = [] := by
  refine List.eq_nil_iff_forall_not_mem.mpr fun s rejected => ?_
  obtain ⟨row, present, -, failed⟩ := mem_rejectedRows.mp rejected
  rw [RuleTable.survivors, List.getElem?_map] at present
  obtain ⟨p, found, rfl⟩ := Option.map_eq_some_iff.mp present
  obtain ⟨-, r, -, own⟩ :=
    (mem_survivingPlaces_of_compile bounded compiled).mp (List.mem_of_getElem? found)
  rw [← rank_survivingPlaces bounded compiled found, Rule.ofRow_renumber,
    readAt?_eq_some_iff.mp own] at failed
  cases failed

/-- Of the survivors nothing is given up: they are entered into the book that was left of all. -/
theorem settledRules_survivors (bounded : rows.length ≤ 2 ^ 32)
    (compiled : compile choose rows descriptions = .ok c)
    : let book := (settledRules choose rows).book.renumber c.table.rank
      settledRules .lowestPriority (c.table.survivors rows)
        = { removals := [], dilemma := none, book, graph := book.graph } := by
  have read
      : readRules (c.table.survivors rows)
        = (rulesWithout (readRules rows) c.report.removed).map (.renumber c.table.rank) := by
    rw [rulesWithout_eq_filterMap bounded compiled]
    exact readRules_of_moved fun i p found => rank_survivingPlaces bounded compiled found
  have entered
      : RuleBook.ofRules (readRules (c.table.survivors rows))
        = (settledRules choose rows).book.renumber c.table.rank := by
    rw [read, RuleBook.ofRules_renumber, book_eq_of_compile bounded compiled]
  obtain ⟨-, resolved, -, -⟩ := compile_eq_ok_iff.mp compiled
  have acyclic := (course_settledRules choose rows).acyclic resolved
  rw [← RuleBook.graph_renumber c.table.rank] at acyclic
  change (RuleBook.ofRules (readRules (c.table.survivors rows))).settle .lowestPriority = _
  rw [entered]
  exact RuleBook.settle_of_acyclic acyclic .lowestPriority

/-- What compiles from the survivors is the table itself, with ranks for numbers. -/
theorem compile_survivors_eq (bounded : rows.length ≤ 2 ^ 32)
    (compiled : compile choose rows descriptions = .ok c)
    : compile .lowestPriority (c.table.survivors rows) descriptions
      = .ok {
          table := c.table.renumber c.table.rank,
          report := { rejected := [], removed := [] }
        } := by
  have settled := settledRules_survivors bounded compiled
  have rejected := rejectedRows_survivors bounded compiled
  obtain ⟨order, -, found, rfl⟩ := compile_eq_ok_iff.mp compiled
  rw [compile_eq_ok_iff, settled, rejected]
  refine ⟨order, rfl, ?_, ?_⟩
  · rw [RuleBook.graph_renumber, found]
  · rw [RuleTable.ofBook_renumber]
    rfl

/-- A table has no more rules than the sheet has rows. -/
theorem length_rules_le (bounded : rows.length ≤ 2 ^ 32)
    (compiled : compile choose rows descriptions = .ok c)
    : c.table.book.rules.length ≤ rows.length := by
  have left : (rulesWithout (readRules rows) c.report.removed).Sublist (readRules rows) :=
    List.filter_sublist
  have read : (readRules rows).length ≤ rows.length := by
    rw [readRules_eq_filterMap]
    exact (List.length_filterMap_le _ _).trans_eq List.length_zipIdx
  rw [(rules_perm_of_compile bounded compiled).length_eq]
  exact left.length_le.trans read

/-- The rows of a compiled sheet whose rules are in its table compile without a loss to the same
table: its rules are only numbered anew, in the same order. So neither rejected rows nor rules given
up leave a trace in a table.
-/
theorem compile_survivors (bounded : rows.length ≤ 2 ^ 32)
    (compiled : compile choose rows descriptions = .ok c)
    : ∃ c',
        compile .lowestPriority (c.table.survivors rows) descriptions = .ok c'
        ∧ c'.report.isClean
        ∧ c'.table = c.table.renumber c.table.rank
        ∧ ∀ r ∈ c.table.book.rules,
            ∀ s ∈ c.table.book.rules,
              r.id.number < s.id.number
              → (c.table.rank r.id).number < (c.table.rank s.id).number := by
  have few := (length_rules_le bounded compiled).trans bounded
  exact ⟨_, compile_survivors_eq bounded compiled, rfl, rfl,
    fun r present s present' before => RuleTable.rank_lt few present present' before⟩

/-- Of the tangled rows one is not read and two are given up, so the numbers close up. -/
theorem tangledRows_survivors
    : tangledRows.length ≤ 2 ^ 32
      ∧ ∃ c c',
          compile turningPolicy tangledRows [] = .ok c
          ∧ (c.table.survivors tangledRows).map (·.formula)
            = ["hip = waist + belt", "bust = hip + waist", "hip = waist + belt"]
          ∧ compile .lowestPriority (c.table.survivors tangledRows) [] = .ok c'
          ∧ c'.report.isClean
          ∧ c'.table = c.table.renumber c.table.rank := by
  have bounded : tangledRows.length ≤ 2 ^ 32 := by decide
  obtain ⟨c, compiled, survive⟩ : ∃ c,
      compile turningPolicy tangledRows [] = .ok c
      ∧ decide ((c.table.survivors tangledRows).map (·.formula)
          = ["hip = waist + belt", "bust = hip + waist", "hip = waist + belt"]) :=
    exists_of_run (by decide +kernel)
  obtain ⟨c', again, clean, table, -⟩ := compile_survivors bounded compiled
  exact ⟨bounded, c, c', compiled, of_decide_eq_true survive, again, clean, table⟩

end

end MeasureSheet
