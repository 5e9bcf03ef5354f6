import Mathlib.Algebra.GroupWithZero.Nat
import Mathlib.Data.List.Destutter
import MeasureSheet.Proofs.DependencyGraph.CycleTests
import MeasureSheet.Proofs.DependencyGraph.Likeness
import MeasureSheet.Proofs.FieldMap.Entries

/-! Graphs of numbered fields. The fields of a rule book are numbered in lexical order, and each
input of each rule becomes an arc between two numbers, which are looked up in a table. The graph
that is built in this way has the fields, children and parents of the graph of the book, and no
look-up fails.
-/

namespace MeasureSheet

/-- An arc between two numbered fields, for one input of a rule. -/
structure Arc where
  base : Nat
  target : Nat
  rule : RuleId
deriving DecidableEq

/-- Fields with their numbers, which are their places in a list, and the arcs between them. -/
structure NumberedGraph where
  fields : List Field := []
  arcs : List Arc := []
  numbers : FieldMap Nat := ∅
deriving DecidableEq

namespace NumberedGraph

def number? (n : NumberedGraph) (f : Field) : Option Nat :=
  n.numbers.find? f

def fieldAt (n : NumberedGraph) (i : Nat) : Field :=
  n.fields.getD i default

/-- The numbers in the lexical order of their fields. -/
def nodes (n : NumberedGraph) : List Nat :=
  n.numbers.values

/-- Gives the next number to a field. -/
def addField (n : NumberedGraph) (f : Field) : NumberedGraph :=
  { n with fields := n.fields ++ [f], numbers := n.numbers.insert f n.fields.length }

/-- Adds the arc for one input of a rule whose target has a number, if the input has one, too. -/
def addArc? (rule : RuleId) (target : Nat) (n : NumberedGraph) (base : Field)
    : Option NumberedGraph :=
  (n.number? base).map fun base => { n with arcs := n.arcs ++ [{ base, target, rule }] }

/-- Adds an arc for each input of a rule. -/
def addRule? (n : NumberedGraph) (r : Rule) : Option NumberedGraph :=
  (n.number? r.target).bind fun target => r.inputs.foldlM (addArc? r.id target) n

end NumberedGraph

/-- The targets and inputs of the rules of a book, in lexical order. -/
def RuleBook.mentioned (book : RuleBook) : List Field :=
  Field.ascending (book.rules.flatMap fun r => r.target :: r.inputs)

/-- The numbered graph of a rule book, unless the look-up of a target or an input fails. -/
def NumberedGraph.ofBook? (book : RuleBook) : Option NumberedGraph :=
  book.rules.foldlM addRule? (book.mentioned.foldl addField {})

namespace NumberedGraph

/-- Numbers in the lexical order of their fields, where of equal neighbours one is left. -/
def inFieldOrder (n : NumberedGraph) (ends : List Nat) : List Nat :=
  (ends.mergeSort fun i j => ¬ n.fieldAt j < n.fieldAt i).destutter (· ≠ ·)

/-- The targets of the arcs from a number. They are met from the latest arc to the first. -/
def children (n : NumberedGraph) (i : Nat) : List Nat :=
  n.inFieldOrder ((n.arcs.filter fun a => a.base = i).map (·.target)).reverse

/-- The bases of the arcs to a number. They are met from the latest arc to the first. -/
def parents (n : NumberedGraph) (i : Nat) : List Nat :=
  n.inFieldOrder ((n.arcs.filter fun a => a.target = i).map (·.base)).reverse

-- -----------------------------------------------------------------------------------------------
-- Numbers of fields

/-- The fields ascend, and the table has the place of each of them. -/
structure Indexed (n : NumberedGraph) : Prop where
  ascending : n.fields.Pairwise (· < ·)
  entries : n.numbers.entries = n.fields.zipIdx

variable {n n' : NumberedGraph}

/-- A field behind all others gets the next number, and the numbers of the others stay. -/
theorem Indexed.addField (indexed : n.Indexed) {f : Field} (last : ∀ g ∈ n.fields, g < f)
    : (n.addField f).Indexed where
  ascending := by
    refine List.pairwise_append.mpr ⟨indexed.ascending, List.pairwise_singleton _ f, ?_⟩
    intro g member f' single
    exact List.mem_singleton.mp single ▸ last g member
  entries := by
    have above : ∀ p ∈ n.numbers.entries, p.1 < f := by
      rw [indexed.entries]
      exact fun p member => last p.1 (List.fst_mem_of_mem_zipIdx member)
    change FieldMap.place f n.fields.length n.numbers.entries = (n.fields ++ [f]).zipIdx
    rw [FieldMap.place_of_above above, indexed.entries, List.zipIdx_append, Nat.zero_add]
    rfl

/-- Ascending fields are numbered one after the other, by induction on them. -/
theorem Indexed.foldl_addField {fields : List Field} (indexed : n.Indexed)
    (ascending : (n.fields ++ fields).Pairwise (· < ·))
    : (fields.foldl NumberedGraph.addField n).Indexed
      ∧ (fields.foldl NumberedGraph.addField n).fields = n.fields ++ fields
      ∧ (fields.foldl NumberedGraph.addField n).arcs = n.arcs := by
  induction fields generalizing n with
  | nil => exact ⟨indexed, (List.append_nil _).symm, rfl⟩
  | cons f fields ih =>
      have last : ∀ g ∈ n.fields, g < f := fun g member =>
        (List.pairwise_append.mp ascending).2.2 g member f List.mem_cons_self
      have split : (n.addField f).fields ++ fields = n.fields ++ f :: fields :=
        List.append_assoc n.fields [f] fields
      obtain ⟨indexed', fields', arcs'⟩ := ih (indexed.addField last) (by rwa [split])
      exact ⟨indexed', fields'.trans split, arcs'⟩

theorem Indexed.number?_eq_some_iff (indexed : n.Indexed) {f : Field} {i : Nat}
    : n.number? f = some i ↔ n.fields[i]? = some f := by
  rw [number?, FieldMap.find?_eq_some_iff, indexed.entries, List.mem_zipIdx_iff_getElem?]

theorem Indexed.nodes_eq (indexed : n.Indexed) : n.nodes = List.range n.fields.length := by
  rw [nodes, FieldMap.values, indexed.entries, List.zipIdx_map_snd, List.range_eq_range']

theorem Indexed.exists_number? (indexed : n.Indexed) {f : Field} (member : f ∈ n.fields)
    : ∃ i, n.number? f = some i := by
  obtain ⟨i, place⟩ := List.mem_iff_getElem?.mp member
  exact ⟨i, indexed.number?_eq_some_iff.mpr place⟩

/-- A number is that of a field when the field stands in its place. -/
theorem Indexed.eq_iff_getElem? (indexed : n.Indexed) {f : Field} {i j : Nat}
    (place : n.fields[i]? = some f)
    : j = i ↔ n.fields[j]? = some f := by
  constructor
  · rintro rfl
    exact place
  · intro place'
    have number := indexed.number?_eq_some_iff.mpr place
    exact Option.some.inj ((indexed.number?_eq_some_iff.mpr place').symm.trans number)

-- -----------------------------------------------------------------------------------------------
-- Arcs of rules

/-- The fields at the ends of an arc, with its rule. -/
def ends (n : NumberedGraph) (a : Arc) : Option Field × Option Field × RuleId :=
  (n.fields[a.base]?, n.fields[a.target]?, a.rule)

end NumberedGraph

/-- The ends that the arcs of a rule should have, in the order of its inputs. -/
def Rule.ends (r : Rule) : List (Option Field × Option Field × RuleId) :=
  r.inputs.map fun base => (some base, some r.target, r.id)

namespace NumberedGraph

variable {n n' n'' : NumberedGraph}

/-- Arcs with the given ends were added, and everything else was kept. -/
structure Grown (n : NumberedGraph) (added : List (Option Field × Option Field × RuleId))
    (n' : NumberedGraph) : Prop where
  fields : n'.fields = n.fields
  numbers : n'.numbers = n.numbers
  arcs : n'.arcs.map n'.ends = n.arcs.map n.ends ++ added

theorem Grown.refl (n : NumberedGraph) : n.Grown [] n :=
  ⟨rfl, rfl, (List.append_nil _).symm⟩

theorem Grown.trans {added more : List (Option Field × Option Field × RuleId)}
    (first : n.Grown added n') (second : n'.Grown more n'')
    : n.Grown (added ++ more) n'' where
  fields := second.fields.trans first.fields
  numbers := second.numbers.trans first.numbers
  arcs := by rw [second.arcs, first.arcs, List.append_assoc]

theorem Grown.indexed {added : List (Option Field × Option Field × RuleId)}
    (grown : n.Grown added n') (indexed : n.Indexed)
    : n'.Indexed where
  ascending := grown.fields ▸ indexed.ascending
  entries := by rw [grown.numbers, grown.fields, indexed.entries]

/-- Steps that each succeed and add arcs succeed in a row, by induction on what they are for. -/
theorem exists_foldlM {α : Type} {step : NumberedGraph → α → Option NumberedGraph}
    {added : α → List (Option Field × Option Field × RuleId)} {fields : List Field} {xs : List α}
    (grows : ∀ n : NumberedGraph, n.Indexed → n.fields = fields → ∀ x ∈ xs,
      ∃ n', step n x = some n' ∧ n.Grown (added x) n')
    (indexed : n.Indexed) (start : n.fields = fields)
    : ∃ n', xs.foldlM step n = some n' ∧ n.Grown (xs.flatMap added) n' := by
  induction xs generalizing n with
  | nil => exact ⟨n, rfl, .refl n⟩
  | cons x xs ih =>
      obtain ⟨n', stepped, grown⟩ := grows n indexed start x List.mem_cons_self
      obtain ⟨n'', rest, grown'⟩ :=
        ih (fun n indexed same y member => grows n indexed same y (List.mem_cons_of_mem x member))
          (grown.indexed indexed) (grown.fields.trans start)
      refine ⟨n'', ?_, by simpa only [List.flatMap_cons] using grown.trans grown'⟩
      rw [List.foldlM_cons, stepped]
      exact rest

/-- An input that has a number gets its arc. -/
theorem exists_addArc? (indexed : n.Indexed) (rule : RuleId) {target : Nat} {f base : Field}
    (place : n.fields[target]? = some f) (member : base ∈ n.fields)
    : ∃ n', addArc? rule target n base = some n' ∧ n.Grown [(some base, some f, rule)] n' := by
  obtain ⟨i, number⟩ := indexed.exists_number? member
  have base? : n.fields[i]? = some base := indexed.number?_eq_some_iff.mp number
  refine ⟨{ n with arcs := n.arcs ++ [{ base := i, target, rule }] }, ?_, rfl, rfl, ?_⟩
  · rw [addArc?, number]
    rfl
  · rw [List.map_append, List.map_singleton]
    simp only [ends, base?, place]
    rfl

/-- A rule whose target and inputs have numbers gets its arcs. -/
theorem exists_addRule? (indexed : n.Indexed) {r : Rule}
    (known : ∀ f ∈ r.target :: r.inputs, f ∈ n.fields)
    : ∃ n', n.addRule? r = some n' ∧ n.Grown r.ends n' := by
  obtain ⟨target, number⟩ := indexed.exists_number? (known r.target List.mem_cons_self)
  have place := indexed.number?_eq_some_iff.mp number
  have grows (m : NumberedGraph) (indexed : m.Indexed) (same : m.fields = n.fields)
      : ∀ base ∈ r.inputs, ∃ m', addArc? r.id target m base = some m'
          ∧ m.Grown [(some base, some r.target, r.id)] m' :=
    fun base member => exists_addArc? indexed r.id (same ▸ place)
      (same ▸ known base (List.mem_cons_of_mem r.target member))
  obtain ⟨n', added, grown⟩ := exists_foldlM grows indexed rfl
  refine ⟨n', by rw [addRule?, number]; exact added, ?_⟩
  rwa [← List.map_eq_flatMap] at grown

end NumberedGraph

-- -----------------------------------------------------------------------------------------------
-- Neighbours in lexical order

namespace Field

/-- Fields that ascend are listed as they are, by induction on them. -/
theorem ascending_of_pairwise {fields : List Field} (sorted : fields.Pairwise (· < ·))
    : ascending fields = fields := by
  induction fields with
  | nil => rfl
  | cons f fields ih =>
      obtain ⟨first, sorted⟩ := List.pairwise_cons.mp sorted
      change insertAscending f (ascending fields) = f :: fields
      rw [ih sorted]
      cases fields with
      | nil => rfl
      | cons g fields => exact if_pos (first g List.mem_cons_self)

protected theorem not_lt_trans {f g h : Field} (hgf : ¬ g < f) (hhg : ¬ h < g) : ¬ h < f :=
  List.le_trans (α := Char) hgf hhg

/-- Sorting and leaving one of equal neighbours gives each member once, in lexical order. -/
theorem destutter_mergeSort (fields : List Field)
    : (fields.mergeSort fun f g => ¬ g < f).destutter (· ≠ ·) = ascending fields := by
  let le (f g : Field) : Bool := ¬ g < f
  have antisymm : Std.Antisymm fun f g => le f g = true :=
    ⟨fun f g hfg hgf => ext_chars
      (List.le_antisymm (α := Char) (of_decide_eq_true hfg) (of_decide_eq_true hgf))⟩
  have sorted : (fields.mergeSort le).Pairwise fun f g => le f g = true := by
    refine List.pairwise_mergeSort ?_ ?_ fields
    · intro f g h hfg hgh
      exact decide_eq_true (Field.not_lt_trans (of_decide_eq_true hfg) (of_decide_eq_true hgh))
    · intro f g
      simpa [le] using (Decidable.not_or_of_imp Field.lt_asymm : ¬ g < f ∨ ¬ f < g)
  have ascends : (fields.mergeSort le).dedup.Pairwise (· < ·) :=
    ((sorted.sublist (List.dedup_sublist _)).and (List.nodup_dedup _)).imp fun both =>
      Field.lt_of_not_lt_of_ne (of_decide_eq_true both.1) both.2.symm
  rw [sorted.destutter_eq_dedup, ← ascending_of_pairwise ascends]
  apply ascending_congr
  intro f
  rw [List.mem_dedup, (List.mergeSort_perm fields le).mem_iff]

end Field

namespace NumberedGraph

variable {n : NumberedGraph}

/-- Putting numbers into order gives the fields that they stand for, each once and in order. -/
theorem Indexed.map_inFieldOrder (indexed : n.Indexed) {ends : List Nat}
    (inside : ∀ i ∈ ends, i < n.fields.length)
    : (n.inFieldOrder ends).map n.fieldAt = Field.ascending (ends.map n.fieldAt) := by
  have nodup : n.fields.Nodup := indexed.ascending.imp Field.ne_of_lt
  have same {i j : Nat} (hi : i < n.fields.length) (hj : j < n.fields.length)
      : i = j ↔ n.fieldAt i = n.fieldAt j := by
    simp only [fieldAt, List.getD_eq_getElem?_getD, List.getElem?_eq_getElem, hi, hj,
      Option.getD_some, nodup.getElem_inj_iff]
  let sorted := ends.mergeSort fun i j => ¬ n.fieldAt j < n.fieldAt i
  have member : ∀ i ∈ sorted, i < n.fields.length :=
    fun i h => inside i ((List.mergeSort_perm _ _).mem_iff.mp h)
  have destuttered
      : (sorted.destutter (· ≠ ·)).map n.fieldAt = (sorted.map n.fieldAt).destutter (· ≠ ·) :=
    List.map_destutter fun i hi j hj => not_congr (same (member i hi) (member j hj))
  have mapped
      : sorted.map n.fieldAt = (ends.map n.fieldAt).mergeSort fun f g => ¬ g < f :=
    List.map_mergeSort fun _ _ _ _ => rfl
  rw [inFieldOrder, destuttered, mapped, Field.destutter_mergeSort]

/-- The far ends of some of the arcs, as fields in order, are the fields that such an arc has. -/
theorem Indexed.map_farEnds (indexed : n.Indexed) {keep : Arc → Bool} {far : Arc → Nat}
    {fields : List Field} (inside : ∀ a ∈ n.arcs, far a < n.fields.length)
    (same : ∀ f, (∃ a ∈ n.arcs, keep a ∧ n.fields[far a]? = some f) ↔ f ∈ fields)
    : (n.inFieldOrder ((n.arcs.filter keep).map far).reverse).map n.fieldAt
      = Field.ascending fields := by
  have fieldAt_iff {a : Arc} (member : a ∈ n.arcs) (f : Field)
      : n.fieldAt (far a) = f ↔ n.fields[far a]? = some f := by
    rw [fieldAt, List.getD_eq_getElem?_getD, List.getElem?_eq_getElem (inside a member),
      Option.getD_some, Option.some.injEq]
  have ends : ∀ i ∈ ((n.arcs.filter keep).map far).reverse, i < n.fields.length := by
    intro i member
    obtain ⟨a, kept, rfl⟩ := List.mem_map.mp (List.mem_reverse.mp member)
    exact inside a (List.mem_filter.mp kept).1
  rw [indexed.map_inFieldOrder ends]
  apply Field.ascending_congr
  intro f
  simp only [← same, List.mem_map, List.mem_reverse, List.mem_filter]
  constructor
  · rintro ⟨_, ⟨a, ⟨member, kept⟩, rfl⟩, named⟩
    exact ⟨a, member, kept, (fieldAt_iff member f).mp named⟩
  · rintro ⟨a, member, kept, place⟩
    exact ⟨far a, ⟨a, ⟨member, kept⟩, rfl⟩, (fieldAt_iff member f).mpr place⟩

-- -----------------------------------------------------------------------------------------------
-- The numbered graph of a rule book

/-- The fields are indexed, and the arcs are those of the rules, in their order. -/
structure Depicts (n : NumberedGraph) (book : RuleBook) : Prop where
  indexed : n.Indexed
  arcs : n.arcs.map n.ends = book.rules.flatMap Rule.ends

namespace Depicts

variable {book : RuleBook}

/-- Each arc joins the places of an input and of the target of a rule. -/
theorem exists_places (depicts : n.Depicts book) {a : Arc} (member : a ∈ n.arcs)
    : ∃ base target, n.fields[a.base]? = some base ∧ n.fields[a.target]? = some target
      ∧ book.Derives base target := by
  have ends : n.ends a ∈ book.rules.flatMap Rule.ends :=
    depicts.arcs ▸ List.mem_map_of_mem member
  obtain ⟨r, inBook, ofRule⟩ := List.mem_flatMap.mp ends
  obtain ⟨base, input, same⟩ := List.mem_map.mp ofRule
  simp only [NumberedGraph.ends, Prod.mk.injEq] at same
  exact ⟨base, r.target, same.1.symm, same.2.1.symm, r, inBook, rfl, input⟩

theorem exists_arc_iff (depicts : n.Depicts book) {base target : Field}
    : (∃ a ∈ n.arcs, n.fields[a.base]? = some base ∧ n.fields[a.target]? = some target)
      ↔ book.Derives base target := by
  constructor
  · rintro ⟨a, member, base?, target?⟩
    obtain ⟨base', target', base'?, target'?, derives⟩ := depicts.exists_places member
    obtain rfl : base = base' := by simpa [base?] using base'?
    obtain rfl : target = target' := by simpa [target?] using target'?
    exact derives
  · rintro ⟨r, inBook, rfl, input⟩
    have ends : (some base, some r.target, r.id) ∈ n.arcs.map n.ends := by
      rw [depicts.arcs]
      exact List.mem_flatMap.mpr ⟨r, inBook, List.mem_map.mpr ⟨base, input, rfl⟩⟩
    obtain ⟨a, member, same⟩ := List.mem_map.mp ends
    simp only [NumberedGraph.ends, Prod.mk.injEq] at same
    exact ⟨a, member, same.1, same.2.1⟩

/-- The children of a number stand for the children of its field in the graph of the book. -/
theorem map_children (depicts : n.Depicts book) {f : Field} {i : Nat}
    (place : n.fields[i]? = some f)
    : (n.children i).map n.fieldAt = book.graph.children f := by
  refine depicts.indexed.map_farEnds (fun a member => ?_) fun target => ?_
  · obtain ⟨-, target, -, target?, -⟩ := depicts.exists_places member
    exact (List.getElem?_eq_some_iff.mp target?).1
  · rw [← Field.mem_ascending, ← DependencyGraph.children, DependencyGraph.mem_children,
      RuleBook.mem_dependencies_graph]
    refine Iff.trans ?_ depicts.exists_arc_iff
    refine exists_congr fun a => and_congr_right fun member => and_congr_left fun _ => ?_
    exact decide_eq_true_iff.trans (depicts.indexed.eq_iff_getElem? place)

theorem map_parents (depicts : n.Depicts book) {f : Field} {i : Nat}
    (place : n.fields[i]? = some f)
    : (n.parents i).map n.fieldAt = book.graph.parents f := by
  refine depicts.indexed.map_farEnds (fun a member => ?_) fun base => ?_
  · obtain ⟨base, -, base?, -, -⟩ := depicts.exists_places member
    exact (List.getElem?_eq_some_iff.mp base?).1
  · rw [← Field.mem_ascending, ← DependencyGraph.parents, DependencyGraph.mem_parents,
      RuleBook.mem_dependencies_graph]
    refine Iff.trans ?_ depicts.exists_arc_iff
    refine exists_congr fun a => and_congr_right fun member => ?_
    rw [and_comm, decide_eq_true_iff, depicts.indexed.eq_iff_getElem? place]

end Depicts

end NumberedGraph

theorem RuleBook.mem_mentioned {book : RuleBook} {f : Field}
    : f ∈ book.mentioned ↔ ∃ r ∈ book.rules, f = r.target ∨ f ∈ r.inputs := by
  simp only [mentioned, Field.mem_ascending, List.mem_flatMap, List.mem_cons]

/-- The fields of the graph of a book are the targets and inputs of its rules. -/
theorem RuleBook.mentioned_eq (book : RuleBook) : book.mentioned = book.graph.fields := by
  apply Field.ascending_congr
  intro f
  rw [← Field.mem_ascending, ← mentioned, mem_mentioned, ← Field.mem_ascending,
    ← DependencyGraph.fields]
  constructor
  · rintro ⟨r, member, rfl | input⟩
    · exact target_mem_fields member
    · exact (derives_of_mem_inputs member input).base_mem_fields
  · intro member
    obtain ⟨d, inGraph, rfl | rfl⟩ := DependencyGraph.mem_fields.mp member
    · obtain ⟨r, inBook, -, input⟩ := mem_dependencies_graph.mp inGraph
      exact ⟨r, inBook, Or.inr input⟩
    · obtain ⟨r, inBook, target, -⟩ := mem_dependencies_graph.mp inGraph
      exact ⟨r, inBook, Or.inl target.symm⟩

/-- Every look-up succeeds while the graph is built, since every target and input has a number. -/
theorem NumberedGraph.exists_ofBook? (book : RuleBook)
    : ∃ n, ofBook? book = some n ∧ n.Depicts book ∧ n.fields = book.graph.fields := by
  have empty : Indexed {} := ⟨List.Pairwise.nil, rfl⟩
  have ascending : ([] ++ book.mentioned).Pairwise (· < ·) := Field.pairwise_ascending _
  obtain ⟨indexed, fields, arcs⟩ := empty.foldl_addField ascending
  have grows (n : NumberedGraph) (indexed : n.Indexed) (same : n.fields = book.mentioned)
      : ∀ r ∈ book.rules, ∃ n', n.addRule? r = some n' ∧ n.Grown r.ends n' := by
    intro r member
    refine exists_addRule? indexed fun f mentioned => ?_
    rw [same, RuleBook.mem_mentioned]
    exact ⟨r, member, List.mem_cons.mp mentioned⟩
  obtain ⟨n, built, grown⟩ := exists_foldlM grows indexed fields
  refine ⟨n, built, ⟨grown.indexed indexed, ?_⟩, ?_⟩
  · rw [grown.arcs, arcs]
    rfl
  · rw [grown.fields, fields, ← book.mentioned_eq]
    rfl

-- -----------------------------------------------------------------------------------------------
-- Faithful graphs

/-- The graph has a field for each target and input, and a dependency for each input of a rule. -/
structure DependencyGraph.Represents (g : DependencyGraph) (book : RuleBook) : Prop where
  mem_fields : ∀ f, f ∈ g.fields ↔ ∃ r ∈ book.rules, f = r.target ∨ f ∈ r.inputs
  lexical_fields : g.fields.Pairwise (· < ·)
  length_dependencies : g.dependencies.length = (book.rules.map fun r => r.inputs.length).sum
  mem_children : ∀ base target, target ∈ g.children base ↔ book.Derives base target
  mem_parents : ∀ base target, base ∈ g.parents target ↔ book.Derives base target
  lexical_children : ∀ f, (g.children f).Pairwise (· < ·)
  lexical_parents : ∀ f, (g.parents f).Pairwise (· < ·)

/-- The numbered graph shows the fields and neighbours of the graph of the book under numbers. -/
structure NumberedGraph.Numbers (n : NumberedGraph) (book : RuleBook) : Prop where
  fields : n.fields = book.graph.fields
  nodes : n.nodes = List.range n.fields.length
  number? : ∀ f i, n.number? f = some i ↔ n.fields[i]? = some f
  arcs : n.arcs.map n.ends = book.rules.flatMap Rule.ends
  children : ∀ f i, n.number? f = some i → (n.children i).map n.fieldAt = book.graph.children f
  parents : ∀ f i, n.number? f = some i → (n.parents i).map n.fieldAt = book.graph.parents f

theorem RuleBook.graph_represents (book : RuleBook) : book.graph.Represents book where
  mem_fields f := by rw [← book.mentioned_eq, mem_mentioned]
  lexical_fields := Field.pairwise_ascending _
  length_dependencies := by
    simp only [graph, List.length_flatMap, Rule.dependencies, List.length_map]
  mem_children _ _ := DependencyGraph.mem_children.trans mem_dependencies_graph
  mem_parents _ _ := DependencyGraph.mem_parents.trans mem_dependencies_graph
  lexical_children _ := Field.pairwise_ascending _
  lexical_parents _ := Field.pairwise_ascending _

/-- The graph of a book has one field for each target and input, one dependency for each input of
each rule, and in both directions the same neighbours, each once and in lexical order. It is the
graph that numbering the fields and looking up the ends of every arc gives, where no look-up fails.
-/
theorem RuleBook.graph_isFaithful (book : RuleBook)
    : book.graph.Represents book
      ∧ ∃ n, NumberedGraph.ofBook? book = some n ∧ n.Numbers book := by
  obtain ⟨n, built, depicts, fields⟩ := NumberedGraph.exists_ofBook? book
  have number? (f : Field) (i : Nat) : n.number? f = some i ↔ n.fields[i]? = some f :=
    depicts.indexed.number?_eq_some_iff
  exact ⟨book.graph_represents, n, built,
    {
      fields
      nodes := depicts.indexed.nodes_eq
      number?
      arcs := depicts.arcs
      children := fun f i number => depicts.map_children ((number? f i).mp number)
      parents := fun f i number => depicts.map_parents ((number? f i).mp number)
    }⟩

end MeasureSheet
