import MeasureSheet.RuleBook

/-! Dependency graphs: which fields the targets of a rule book are derived from. A graph is its list
of dependencies, one for each input of each rule, and its fields are the ends of its dependencies.
-/

namespace MeasureSheet

/-- A target and one of the fields that a rule derives it from. -/
structure Dependency where
  base : Field
  target : Field
deriving DecidableEq

structure DependencyGraph where
  dependencies : List Dependency
deriving DecidableEq

namespace DependencyGraph

/-- Every field at an end of a dependency, in lexical order. -/
def fields (g : DependencyGraph) : List Field :=
  Field.ascending (g.dependencies.flatMap fun d => [d.base, d.target])

/-- The fields that are derived directly from a field, in lexical order. -/
def children (g : DependencyGraph) (f : Field) : List Field :=
  Field.ascending ((g.dependencies.filter fun d => d.base = f).map (·.target))

/-- The fields that a field is derived from directly, in lexical order. -/
def parents (g : DependencyGraph) (f : Field) : List Field :=
  Field.ascending ((g.dependencies.filter fun d => d.target = f).map (·.base))

/-- The position of a field in the lexical list of fields. -/
def position? (g : DependencyGraph) (f : Field) : Option Nat :=
  g.fields.idxOf? f

theorem mem_fields {g : DependencyGraph} {f : Field}
    : f ∈ g.fields ↔ ∃ d ∈ g.dependencies, f = d.base ∨ f = d.target := by
  simp [fields]

theorem mem_children {g : DependencyGraph} {base target : Field}
    : target ∈ g.children base ↔ ⟨base, target⟩ ∈ g.dependencies := by
  simp only [children, Field.mem_ascending, List.mem_map, List.mem_filter, decide_eq_true_eq]
  exact ⟨by rintro ⟨d, ⟨hd, rfl⟩, rfl⟩; exact hd, fun h => ⟨_, ⟨h, rfl⟩, rfl⟩⟩

theorem mem_parents {g : DependencyGraph} {base target : Field}
    : base ∈ g.parents target ↔ ⟨base, target⟩ ∈ g.dependencies := by
  simp only [parents, Field.mem_ascending, List.mem_map, List.mem_filter, decide_eq_true_eq]
  exact ⟨by rintro ⟨d, ⟨hd, rfl⟩, rfl⟩; exact hd, fun h => ⟨_, ⟨h, rfl⟩, rfl⟩⟩

-- -----------------------------------------------------------------------------------------------
-- Graphs without cycles

/-- The dependencies whose base depends on something itself. -/
def peel (dependencies : List Dependency) : List Dependency :=
  dependencies.filter fun d => dependencies.any fun e => e.target = d.base

/-- Peels until nothing more comes off. -/
def core : Nat → List Dependency → List Dependency
  | 0, dependencies => dependencies
  | rounds + 1, dependencies =>
      let rest := peel dependencies
      if rest.length = dependencies.length then dependencies else core rounds rest

/-- No field depends on itself, however indirectly: peeling leaves nothing. -/
def isAcyclic (g : DependencyGraph) : Bool :=
  (core g.dependencies.length g.dependencies).isEmpty

end DependencyGraph

-- -----------------------------------------------------------------------------------------------
-- The graph of a rule book

def Rule.dependencies (r : Rule) : List Dependency :=
  r.inputs.map fun base => { base, target := r.target }

def RuleBook.graph (book : RuleBook) : DependencyGraph where
  dependencies := book.rules.flatMap Rule.dependencies

end MeasureSheet
