import MeasureSheet.Proofs.Compilation.Reloading
import MeasureSheet.Proofs.RuleTable.Candidates

/-! Loaded tables. The acceptance check makes order and rules fit each other, but it does not look
at two things that every compiled table has: it passes lists without rules and numbers that stand
for several rules.
-/

namespace MeasureSheet.RuleTable

variable {t : RuleTable}

/-- Every ordered field has candidates, and every number stands for one rule, which it finds. -/
structure Intact (t : RuleTable) : Prop where
  supplied : ∀ f ∈ t.order, t.candidates f ≠ []
  unique : (t.book.rules.map (·.id)).Nodup
  found : ∀ r ∈ t.book.rules, t.findRule? r.id = some r

-- -----------------------------------------------------------------------------------------------
-- What the check establishes

theorem check_of_load {text : String} (loaded : RuleTable.load text = .ok t)
    : t.check = .ok () := by
  unfold load at loaded
  cases read : Json.readText ofJson text with
  | error fault => simp [read] at loaded
  | ok other =>
      cases accepted : other.check with
      | error cause => simp [read, accepted] at loaded
      | ok _ =>
          obtain rfl : other = t := by simpa [read, accepted] using loaded
          exact accepted

/-- In an accepted table ordered fields have candidates when no list is empty. -/
theorem Coherent.supplied_iff (coherent : t.Coherent)
    : (∀ f ∈ t.order, t.candidates f ≠ []) ↔ ∀ p ∈ t.book.filed.entries, p.2 ≠ [] := by
  have candidates {p : Field × List Rule} (entry : p ∈ t.book.filed.entries)
      : t.candidates p.1 = p.2 := by
    simp [candidates, RuleBook.rulesFor, FieldMap.find?_eq_some_iff.mpr entry]
  constructor
  · intro supplied p entry
    have has : t.book.hasTarget p.1 :=
      Option.isSome_iff_exists.mpr ⟨p.2, FieldMap.find?_eq_some_iff.mpr entry⟩
    rw [← candidates entry]
    exact supplied p.1 ((coherent.targets p.1).mpr has)
  · intro nonempty f ordered
    obtain ⟨rules, listed⟩ := Option.isSome_iff_exists.mp ((coherent.targets f).mp ordered)
    have entry := FieldMap.find?_eq_some_iff.mp listed
    rw [candidates entry]
    exact nonempty _ entry

/-- Where no id stands for two rules, a rule is found by its id, by induction on the list. -/
theorem find?_id_of_nodup {rules : List Rule} (unique : (rules.map (·.id)).Nodup) {r : Rule}
    (member : r ∈ rules)
    : rules.find? (fun s => s.id = r.id) = some r := by
  induction rules with
  | nil => exact absurd member List.not_mem_nil
  | cons first rest ih =>
      rw [List.map_cons, List.nodup_cons] at unique
      rcases List.mem_cons.mp member with rfl | later
      · simp
      · have different : first.id ≠ r.id := fun same =>
          unique.1 (same ▸ List.mem_map_of_mem later)
        rw [List.find?_cons_of_neg (by simpa using different)]
        exact ih unique.2 later

theorem Coherent.intact_iff (coherent : t.Coherent)
    : t.Intact
      ↔ (∀ p ∈ t.book.filed.entries, p.2 ≠ []) ∧ (t.book.rules.map (·.id)).Nodup := by
  rw [← coherent.supplied_iff]
  constructor
  · exact fun intact => ⟨intact.supplied, intact.unique⟩
  · intro h
    obtain ⟨supplied, unique⟩ := h
    exact { supplied, unique, found := fun r member => find?_id_of_nodup unique member }

-- -----------------------------------------------------------------------------------------------
-- Texts of compiled tables

/-- The lists of a compiled table are not empty, and the rows of its rules are different. -/
theorem ids_of_compile {choose : RemovalPolicy} {rows : List Row}
    {descriptions : List (String × String)} {c : CompiledSheet} (bounded : rows.length ≤ 2 ^ 32)
    (compiled : compile choose rows descriptions = .ok c)
    : (∀ p ∈ c.table.book.filed.entries, p.2 ≠ []) ∧ (c.table.book.rules.map (·.id)).Nodup := by
  obtain ⟨order, -, -, rfl⟩ := compile_eq_ok_iff.mp compiled
  refine ⟨(filed_settledRules choose rows).sorted.nonempty, ?_⟩
  have read := (rowsAscend_readRules bounded).nodup
  have accounted := (perm_settledRules choose rows).map (·.id)
  rw [List.map_append] at accounted
  exact (List.nodup_append.mp (accounted.nodup_iff.mpr read)).2.1

/-- A table that is loaded from the text of a compiled one has its lists and ids. -/
theorem intact_of_load_save {choose : RemovalPolicy} {rows : List Row}
    {descriptions : List (String × String)} {c : CompiledSheet} (bounded : rows.length ≤ 2 ^ 32)
    (compiled : compile choose rows descriptions = .ok c)
    (loaded : RuleTable.load c.table.save = .ok t)
    : t.Intact := by
  have coherent := check_eq_ok_iff_coherent.mp (check_of_load loaded)
  obtain ⟨-, rfl⟩ := (load_save_eq_ok_iff (check_of_compile compiled)).mp loaded
  obtain ⟨nonempty, unique⟩ := ids_of_compile bounded compiled
  refine coherent.intact_iff.mpr ⟨fun p entry empty => ?_, ?_⟩
  · rw [mapNumbers, RuleBook.entries_mapNumbers] at entry
    obtain ⟨q, old, rfl⟩ := List.mem_map.mp entry
    exact nonempty q old (List.map_eq_nil_iff.mp empty)
  · rw [mapNumbers, RuleBook.rules_mapNumbers, List.map_map]
    exact unique

-- -----------------------------------------------------------------------------------------------
-- Loaded tables

/-- In every loaded table the order fits the rules and nothing is derived from itself. The table is
intact exactly when none of its lists is empty and no id is repeated, which holds of every table
that is loaded from the text of a compiled one.
-/
theorem loaded_isIntact_iff {text : String} (loaded : RuleTable.load text = .ok t)
    : t.Coherent
      ∧ t.graph.Acyclic
      ∧ (t.Intact
        ↔ (∀ p ∈ t.book.filed.entries, p.2 ≠ []) ∧ (t.book.rules.map (·.id)).Nodup)
      ∧ ∀ (choose : RemovalPolicy) (rows : List Row) (descriptions : List (String × String))
          (c : CompiledSheet),
          rows.length ≤ 2 ^ 32
          → compile choose rows descriptions = .ok c
          → text = c.table.save
          → t.Intact := by
  have coherent := check_eq_ok_iff_coherent.mp (check_of_load loaded)
  refine ⟨coherent, coherent.acyclic, coherent.intact_iff, ?_⟩
  rintro choose rows descriptions c bounded compiled rfl
  exact intact_of_load_save bounded compiled loaded

/-- A table of two targets, the one derived from the other. -/
def pairedTable : RuleTable :=
  ofBook
    (.ofRules
      [
        {
          id := ⟨3⟩,
          target := .named "bust",
          relation := .offset (.named "hip") (-4.5),
          priority := -1
        },
        {
          id := ⟨1⟩,
          target := .named "hip",
          relation := .ratio (.named "waist") 1.25,
          priority := 2
        }
      ])
    [.named "waist", .named "hip", .named "bust"] ∅

theorem pairedTable_isIntact
    : ∃ t, RuleTable.load pairedTable.save = .ok t ∧ t.graph.Acyclic ∧ t.Intact := by
  have accepted : pairedTable.check = .ok () := by decide +kernel
  have loaded : RuleTable.load pairedTable.save = .ok pairedTable :=
    (load_save_iff accepted).mpr (by decide +kernel)
  obtain ⟨-, acyclic, intact, -⟩ := loaded_isIntact_iff loaded
  exact ⟨pairedTable, loaded, acyclic, intact.mpr (by decide +kernel)⟩

/-- A table with a target that has no rules. -/
def hollowTable : RuleTable where
  order := [.named "a"]
  book := { filed := .ofList [(.named "a", [])] }
  descriptions := ∅

/-- A table in which two rules have the same id. -/
def doubledTable : RuleTable :=
  ofBook
    (.ofRules
      [
        { id := ⟨0⟩, target := .named "a", relation := .ratio (.named "b") 2.0, priority := 1 },
        { id := ⟨0⟩, target := .named "c", relation := .ratio (.named "a") 3.0, priority := 1 }
      ])
    [.named "b", .named "a", .named "c"] ∅

theorem hollowTable_doubledTable_areLoaded
    : (¬ ∀ text t, RuleTable.load text = .ok t → ∀ f ∈ t.order, t.candidates f ≠ [])
      ∧ (¬ ∀ text t, RuleTable.load text = .ok t → (t.book.rules.map (·.id)).Nodup)
      ∧ ¬ ∀ text t,
          RuleTable.load text = .ok t → ∀ r ∈ t.book.rules, t.findRule? r.id = some r := by
  have hollowAccepted : hollowTable.check = .ok () := by decide +kernel
  have hollow : RuleTable.load hollowTable.save = .ok hollowTable :=
    (load_save_iff hollowAccepted).mpr (by decide +kernel)
  have doubledAccepted : doubledTable.check = .ok () := by decide +kernel
  have doubled : RuleTable.load doubledTable.save = .ok doubledTable :=
    (load_save_iff doubledAccepted).mpr (by decide +kernel)
  refine ⟨fun supplied => ?_, fun unique => ?_, fun found => ?_⟩
  · exact absurd (supplied _ hollowTable hollow) (by decide +kernel)
  · exact absurd (unique _ doubledTable doubled) (by decide +kernel)
  · exact absurd (found _ doubledTable doubled) (by decide +kernel)

end MeasureSheet.RuleTable
