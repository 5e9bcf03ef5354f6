import MeasureSheet.Proofs.DependencyGraph.Ordering

/-! The evaluation order comes first, in lexical order, among all orders in which fields stand
behind their bases: whatever such an order places next is ready, and the first ready field is
placed. On the way there no counter is lowered below zero, and no field becomes ready twice.
-/

namespace MeasureSheet.DependencyGraph

variable {g : DependencyGraph}

-- -----------------------------------------------------------------------------------------------
-- Comparison with another order

/-- All fields of the graph, each once and behind the fields that it is derived from. -/
structure Orders (g : DependencyGraph) (order : List Field) : Prop where
  complete : order.Perm g.fields
  basesFirst : g.BasesFirst order

theorem Orders.nodup {order : List Field} (orders : g.Orders order) : order.Nodup :=
  orders.complete.nodup_iff.mpr g.nodup_fields

theorem Orders.not_mem_front {front rest : List Field} {f : Field}
    (orders : g.Orders (front ++ f :: rest))
    : f ∉ front := fun member =>
  (List.nodup_cons.mp (List.nodup_middle.mp orders.nodup)).1 (List.mem_append_left rest member)

/-- The bases of a field are listed in front of it. -/
theorem Orders.base_mem_front {front rest : List Field} {f base : Field}
    (orders : g.Orders (front ++ f :: rest)) (step : g.Derives base f)
    : base ∈ front := by
  have before := orders.basesFirst f (by simp) base step
  by_contra absent
  rw [List.idxOf_append, if_neg absent, List.idxOf_append, if_neg orders.not_mem_front,
    List.idxOf_cons_self] at before
  omega

namespace Progress

/-- What is placed is the beginning of another order, or precedes it however it goes on. -/
def Leads (p : Progress) (other : List Field) : Prop :=
  p.placed <+: other ∨ ∀ rest, p.placed ++ rest < other

/-- What another order has behind the placed fields is ready. -/
theorem Sound.mem_ready_of_orders {p : Progress} (sound : p.Sound g) {f : Field}
    {rest : List Field} (orders : g.Orders (p.placed ++ f :: rest))
    : f ∈ p.ready := by
  refine (sound.ready f).mpr ⟨orders.complete.subset (by simp), orders.not_mem_front, ?_⟩
  exact missing_eq_zero_iff.mpr fun base step => orders.base_mem_front step

/-- Placing the first ready field keeps the lead: another order goes on with it or a later one. -/
theorem Sound.leads_place {p : Progress} (sound : p.Sound g) {f : Field}
    {ready other : List Field} (next : p.ready = f :: ready) (orders : g.Orders other)
    (leads : p.Leads other)
    : (p.place g f ready).Leads other := by
  obtain ⟨inFields, fresh, -, precedes, -⟩ := sound.isNext next
  have placed : (p.place g f ready).placed = p.placed ++ [f] := rfl
  rcases leads with ⟨tail, rfl⟩ | ahead
  · cases tail with
    | nil =>
        have member : f ∈ p.placed := by simpa using orders.complete.symm.subset inFields
        exact absurd member fresh
    | cons chosen rest =>
        have isReady := sound.mem_ready_of_orders orders
        rw [next] at isReady
        rcases List.mem_cons.mp isReady with rfl | later
        · exact Or.inl ⟨rest, by simp [placed]⟩
        · refine Or.inr fun more => ?_
          rw [placed, List.append_assoc]
          exact List.Lex.append_left (· < ·) (List.Lex.rel (precedes chosen later)) p.placed
  · refine Or.inr fun more => ?_
    rw [placed, List.append_assoc]
    exact ahead ([f] ++ more)

/-- A run keeps the lead, by induction on its steps. -/
theorem Sound.leads_run {p : Progress} (sound : p.Sound g) {other : List Field}
    (orders : g.Orders other) (leads : p.Leads other) (steps : Nat)
    : (p.run g steps).Leads other := by
  induction steps generalizing p with
  | zero => exact leads
  | succ steps ih =>
      unfold Progress.run
      cases next : p.ready with
      | nil => exact leads
      | cons f ready => exact ih (sound.place next) (sound.leads_place next orders leads)

end Progress

/-- An order that is found is another one, or precedes it. -/
theorem evaluationOrder_le {order other : List Field} (found : g.evaluationOrder = .ok order)
    (orders : g.Orders other)
    : order = other ∨ order < other := by
  obtain ⟨complete, rfl⟩ := evaluationOrder_eq_ok_iff.mp found
  have leads : g.ordering.Leads other :=
    (Progress.sound_start g).leads_run orders (Or.inl List.nil_prefix) g.fields.length
  rcases leads with front | ahead
  · exact Or.inl (front.eq_of_length (complete.trans orders.complete.length_eq.symm))
  · exact Or.inr (by simpa using ahead [])

-- -----------------------------------------------------------------------------------------------
-- Counting down and becoming ready

namespace Progress

/-- Each counter before a placement is the one after it and one more for every time that its field
is among the children of the placed one. Counters are natural numbers, so none falls below zero.
-/
def CountsDown (g : DependencyGraph) (p : Progress) (f : Field) (ready : List Field) : Prop :=
  ∀ target ∈ g.fields, ∃ n,
    p.waiting.find? target = some (n + (g.children f).count target)
    ∧ (p.place g f ready).waiting.find? target = some n

theorem Sound.countsDown {p : Progress} (sound : p.Sound g) {f : Field} {ready : List Field}
    (next : p.ready = f :: ready)
    : p.CountsDown g f ready := by
  have fresh := (sound.isNext next).fresh
  intro target member
  refine ⟨g.missing (p.placed ++ [f]) target, ?_, sound.waiting_place fresh ready member⟩
  rw [sound.waiting target member, missing_eq_add_count fresh]

/-- The fields that become ready while a run goes on, in turn. -/
def entered (g : DependencyGraph) : Nat → Progress → List Field
  | 0, _ => []
  | steps + 1, p =>
      match p.ready with
      | [] => []
      | f :: ready => p.entering g f ++ entered g steps (p.place g f ready)

/-- The fields that have become ready so far: each once, and each placed or ready still. -/
structure Accounts (p : Progress) (log : List Field) : Prop where
  unique : log.Nodup
  mem_iff : ∀ f, f ∈ log ↔ f ∈ p.placed ∨ f ∈ p.ready

/-- What a placement makes ready was neither ready before nor placed. -/
theorem Sound.accounts_place {p : Progress} (sound : p.Sound g) {f : Field}
    {ready log : List Field} (next : p.ready = f :: ready) (accounts : p.Accounts log)
    : (p.place g f ready).Accounts (log ++ p.entering g f) := by
  have fresh := (sound.isNext next).fresh
  have new : ∀ target ∈ p.entering g f, target ∉ log := by
    intro target entering inLog
    rw [sound.entering_eq_freed fresh, mem_freed] at entering
    rcases (accounts.mem_iff target).mp inLog with placed | ready
    · exact fresh (sound.ordered.base_mem placed entering.1)
    · exact fresh (missing_eq_zero_iff.mp ((sound.ready target).mp ready).2.2 f entering.1)
  constructor
  · refine List.nodup_append.mpr ⟨accounts.unique, (g.nodup_children f).filter _, ?_⟩
    rintro target inLog _ entering rfl
    exact new target entering inLog
  · intro target
    have placed : (p.place g f ready).placed = p.placed ++ [f] := rfl
    rw [placed, ready_place, mem_foldl_insertAscending, List.mem_append, accounts.mem_iff, next]
    simp only [List.mem_append, List.mem_cons, List.not_mem_nil, or_false]
    tauto

/-- The log of a run accounts for its outcome, by induction on its steps. -/
theorem Sound.accounts_run {p : Progress} (sound : p.Sound g) {log : List Field}
    (accounts : p.Accounts log) (steps : Nat)
    : (p.run g steps).Accounts (log ++ p.entered g steps) := by
  induction steps generalizing p log with
  | zero => simpa [Progress.run, entered] using accounts
  | succ steps ih =>
      unfold Progress.run entered
      cases next : p.ready with
      | nil => simpa using accounts
      | cons f ready =>
          rw [← List.append_assoc]
          exact ih (sound.place next) (sound.accounts_place next accounts)

theorem accounts_start (g : DependencyGraph) : (start g).Accounts (start g).ready where
  unique := (sound_start g).ascending.imp Field.ne_of_lt
  mem_iff f := by simp [start]

/-- What accounts for sound progress is what is placed with what is ready, up to order. -/
theorem Sound.accounts_perm {p : Progress} (sound : p.Sound g) {log : List Field}
    (accounts : p.Accounts log)
    : log.Perm (p.placed ++ p.ready) := by
  have unique : (p.placed ++ p.ready).Nodup := by
    refine List.nodup_append.mpr ⟨sound.unique, sound.ascending.imp Field.ne_of_lt, ?_⟩
    rintro f placed _ ready rfl
    exact ((sound.ready f).mp ready).2.1 placed
  refine (List.perm_ext_iff_of_nodup accounts.unique unique).mpr fun f => ?_
  rw [accounts.mem_iff, List.mem_append]

end Progress

-- -----------------------------------------------------------------------------------------------
-- The first order

/-- The state after a number of placements. -/
def progress (g : DependencyGraph) (steps : Nat) : Progress :=
  (Progress.start g).run g steps

/-- The fields that have become ready within a number of placements, in turn. -/
def takenUp (g : DependencyGraph) (steps : Nat) : List Field :=
  (Progress.start g).ready ++ (Progress.start g).entered g steps

/-- An order is found exactly when it is the first one, in lexical order, of all that hold every
field once and behind its bases. Whether one is found or not, placements never lower a counter below
zero, and never make a field ready that is ready or placed already.
-/
theorem evaluationOrder_isLeast (g : DependencyGraph)
    : (∀ order,
        g.evaluationOrder = .ok order
        ↔ g.Orders order ∧ ∀ other, g.Orders other → order = other ∨ order < other)
      ∧ (∀ steps f ready,
          (g.progress steps).ready = f :: ready → (g.progress steps).CountsDown g f ready)
      ∧ ∀ steps,
          (g.takenUp steps).Nodup
          ∧ (g.takenUp steps).Perm ((g.progress steps).placed ++ (g.progress steps).ready) := by
  refine ⟨fun order => ⟨fun found => ?_, fun ⟨orders, least⟩ => ?_⟩, ?_, fun steps => ?_⟩
  · obtain ⟨complete, basesFirst⟩ := evaluationOrder_spec found
    exact ⟨⟨complete, basesFirst⟩, fun other orders => evaluationOrder_le found orders⟩
  · have acyclic := orders.basesFirst.acyclic orders.complete.symm.subset
    obtain ⟨first, found⟩ := acyclic.exists_evaluationOrder
    obtain ⟨complete, basesFirst⟩ := evaluationOrder_spec found
    rcases evaluationOrder_le found orders with rfl | before
    · exact found
    · rcases least first ⟨complete, basesFirst⟩ with rfl | after
      · exact found
      · have asymm : Std.Asymm fun f f' : Field => f < f' := ⟨fun _ _ => Field.lt_asymm⟩
        exact absurd after (List.lt_asymm before)
  · intro steps f ready next
    exact ((Progress.sound_start g).run steps).1.countsDown next
  · have accounts := (Progress.sound_start g).accounts_run (Progress.accounts_start g) steps
    exact ⟨accounts.unique, ((Progress.sound_start g).run steps).1.accounts_perm accounts⟩

/-- Two fields are ready from the start, and one of two dependencies is given twice. -/
def tiedGraph : DependencyGraph where
  dependencies :=
    [
      { base := .named "waist", target := .named "arm" },
      { base := .named "hip", target := .named "belt" },
      { base := .named "waist", target := .named "arm" }
    ]

def tiedOrder : List Field :=
  [.named "hip", .named "belt", .named "waist", .named "arm"]

theorem tiedOrder_isLeast
    : tiedGraph.evaluationOrder = .ok tiedOrder
      ∧ tiedGraph.Orders tiedOrder
      ∧ (∀ other, tiedGraph.Orders other → tiedOrder = other ∨ tiedOrder < other)
      ∧ (tiedGraph.progress 2).ready = [.named "waist"]
      ∧ (tiedGraph.progress 2).CountsDown tiedGraph (.named "waist") []
      ∧ (tiedGraph.takenUp 2).Nodup := by
  obtain ⟨least, countsDown, taken⟩ := tiedGraph.evaluationOrder_isLeast
  have found : tiedGraph.evaluationOrder = .ok tiedOrder := by decide +kernel
  have next : (tiedGraph.progress 2).ready = [.named "waist"] := by decide +kernel
  obtain ⟨orders, first⟩ := (least tiedOrder).mp found
  exact ⟨found, orders, first, next, countsDown 2 (.named "waist") [] next, (taken 2).1⟩

end MeasureSheet.DependencyGraph
