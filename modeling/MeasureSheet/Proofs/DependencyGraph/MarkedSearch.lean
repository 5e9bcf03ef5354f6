import MeasureSheet.Proofs.CycleRemoval.Candidates
import MeasureSheet.Proofs.DependencyGraph.CycleSearch

/-! The search for cycles as it is carried out with marks. It asks of each field only how it is
marked, keeps its way as a stack, and has nothing to say when ways become too long. The marks tell
at every moment what is on the stack and what is finished, so this search goes the same ways as the
search over lists of fields: it never needs longer ways than there are fields, and the field at
which it closes a cycle is always on its stack.
-/

namespace MeasureSheet.DependencyGraph

variable {g : DependencyGraph}

-- -----------------------------------------------------------------------------------------------
-- Searching with marks

/-- What is known of a field that was met. -/
inductive Mark where
  | onWay
  | finished
deriving DecidableEq

/-- How far a search has come: the marks so far, and the way that it is on, oldest field first. -/
structure Survey where
  marks : FieldMap Mark
  stack : List Field

/-- Why a search ends before it is through. -/
inductive Interruption where
  /-- A field was met that is marked as being on the way. -/
  | met (stack : List Field) (entry : Field)
  /-- The way became longer than allowed. -/
  | tooLong

namespace Survey

def start : Survey where
  marks := ∅
  stack := []

def enter (s : Survey) (f : Field) : Survey where
  marks := s.marks.insert f .onWay
  stack := s.stack ++ [f]

def leave (s : Survey) (f : Field) : Survey where
  marks := s.marks.insert f .finished
  stack := s.stack.dropLast

end Survey

/-- Searches from a field that has no mark. The first argument bounds the length of ways. -/
def survey (g : DependencyGraph) : Nat → Survey → Field → Except Interruption Survey
  | 0, _, _ => .error .tooLong
  | depth + 1, s, f => do
      let s ← (g.children f).foldlM (fun s child =>
        match s.marks.find? child with
        | some .finished => .ok s
        | some .onWay => .error (.met s.stack child)
        | none => survey g depth s child) (s.enter f)
      return s.leave f

/-- Searches from every field that has no mark when its turn comes. -/
def surveyAll (g : DependencyGraph) (depth : Nat) : Except Interruption Survey :=
  g.fields.foldlM (fun s root =>
    if (s.marks.find? root).isSome then .ok s else g.survey depth s root) .start

/-- The dependencies along a stack from an entry on and back to it. For an entry that is not on the
stack they would begin with the oldest field.
-/
def closeStack (stack : List Field) (entry : Field) : List Dependency :=
  let path := stack.drop ((stack.idxOf? entry).getD 0)
  List.zipWith (fun base target => { base, target }) path (path.drop 1 ++ [entry])

-- -----------------------------------------------------------------------------------------------
-- Marks and lists

/-- The marks and the stack tell the same as a way, newest first, and the finished fields. -/
structure Survey.Tells (s : Survey) (way finished : List Field) : Prop where
  stack : s.stack = way.reverse
  mark
    : ∀ f,
        s.marks.find? f
        = if f ∈ finished then some .finished else if f ∈ way then some .onWay else none

theorem Survey.tells_start : start.Tells [] [] where
  stack := rfl
  mark _ := by simp [start]

theorem Survey.Tells.enter {s : Survey} {way finished : List Field} (tells : s.Tells way finished)
    {f : Field} (unfinished : f ∉ finished)
    : (s.enter f).Tells (f :: way) finished where
  stack := by simp [Survey.enter, tells.stack]
  mark target := by
    rw [Survey.enter, FieldMap.find?_insert, tells.mark]
    by_cases same : target = f <;> simp [same, unfinished]

theorem Survey.Tells.leave {s : Survey} {f : Field} {way finished : List Field}
    (tells : s.Tells (f :: way) finished)
    : (s.leave f).Tells way (f :: finished) where
  stack := by simp [Survey.leave, tells.stack]
  mark target := by
    rw [Survey.leave, FieldMap.find?_insert, tells.mark]
    by_cases same : target = f <;> simp [same]

/-- A search with marks and one over lists have gone the same way: both are through with what they
had to do, or both have met the same field, which is on the stack.
-/
inductive Parallel (way : List Field)
    : Except Interruption Survey → Except (List Field) (List Field) → Prop where
  | through {s : Survey} {finished : List Field} (tells : s.Tells way finished)
    : Parallel way (.ok s) (.ok finished)
  | met {stack : List Field} {entry : Field} (unique : stack.Nodup) (onStack : entry ∈ stack)
    : Parallel way (.error (.met stack entry)) (.error (loopFrom entry stack.reverse))

theorem Parallel.bind {way way' : List Field} {marked : Except Interruption Survey}
    {listed : Except (List Field) (List Field)} (parallel : Parallel way marked listed)
    {next : Survey → Except Interruption Survey}
    {next' : List Field → Except (List Field) (List Field)}
    (go : ∀ s finished, s.Tells way finished → Parallel way' (next s) (next' finished))
    : Parallel way' (marked.bind next) (listed.bind next') := by
  cases parallel with
  | through tells => exact go _ _ tells
  | met unique onStack => exact .met unique onStack

/-- Searches that go the same way for each goal do so for all in turn, by goal induction. -/
theorem parallel_foldlM {way goals finished : List Field} {s : Survey}
    {visit : Survey → Field → Except Interruption Survey}
    {visit' : List Field → Field → Except (List Field) (List Field)}
    (each
      : ∀ goal ∈ goals, ∀ s finished,
          s.Tells way finished → Parallel way (visit s goal) (visit' finished goal))
    (tells : s.Tells way finished)
    : Parallel way (goals.foldlM visit s) (goals.foldlM visit' finished) := by
  induction goals generalizing s finished with
  | nil => exact .through tells
  | cons goal rest ih =>
      rw [List.foldlM_cons, List.foldlM_cons]
      refine (each goal List.mem_cons_self s finished tells).bind fun s finished tells => ?_
      exact ih (fun next member => each next (List.mem_cons_of_mem _ member)) tells

/-- What a search with marks does with one child of the newest field on its way. -/
def surveyChild (g : DependencyGraph) (depth : Nat) (s : Survey) (child : Field)
    : Except Interruption Survey :=
  match s.marks.find? child with
  | some .finished => .ok s
  | some .onWay => .error (.met s.stack child)
  | none => g.survey depth s child

theorem survey_succ (g : DependencyGraph) (depth : Nat) (s : Survey) (f : Field)
    : g.survey (depth + 1) s f
      = ((g.children f).foldlM (g.surveyChild depth) (s.enter f)).bind
          fun s => .ok (s.leave f) :=
  rfl

/-- Along a way the two searches go on alike, whatever length is allowed beyond the number of
fields, by induction on the depth.
-/
theorem parallel_survey {depth : Nat} (extra : Nat) {s : Survey} {way finished : List Field}
    {f : Field} (trail : g.Trail depth (f :: way)) (tells : s.Tells way finished)
    (unfinished : f ∉ finished)
    : Parallel way (g.survey (depth + extra) s f) (g.search depth way finished f) := by
  induction depth generalizing s way finished f with
  | zero => exact absurd trail.depth_pos (Nat.lt_irrefl 0)
  | succ depth ih =>
      have children : Parallel (f :: way)
          ((g.children f).foldlM (g.surveyChild (depth + extra)) (s.enter f))
          ((g.children f).foldlM (g.visitChild depth (f :: way)) finished) := by
        apply parallel_foldlM _ (tells.enter unfinished)
        intro child member s finished tells
        unfold surveyChild visitChild
        rw [tells.mark child]
        by_cases old : child ∈ finished
        · rw [if_pos old, if_pos old]
          exact .through tells
        · rw [if_neg old, if_neg old]
          by_cases onWay : child ∈ f :: way
          · have met : Parallel (f :: way) _ _ :=
              .met (List.nodup_reverse.mpr trail.unique) (List.mem_reverse.mpr onWay)
            rw [if_pos onWay, if_pos onWay, tells.stack]
            rwa [List.reverse_reverse] at met
          · rw [if_neg onWay, if_neg onWay]
            exact ih (trail.extend (mem_children.mp member) onWay) tells old
      rw [Nat.succ_add, survey_succ, search_succ]
      exact children.bind fun s finished tells => .through tells.leave

theorem parallel_surveyAll {depth : Nat} (enough : g.fields.length ≤ depth)
    : Parallel [] (g.surveyAll depth) g.searchAll := by
  obtain ⟨extra, rfl⟩ := Nat.exists_eq_add_of_le enough
  apply parallel_foldlM _ Survey.tells_start
  intro root member s finished tells
  rw [tells.mark root]
  by_cases old : root ∈ finished
  · rw [if_pos old, if_pos old]
    exact .through tells
  · rw [if_neg old, if_neg old]
    exact parallel_survey extra (trail_root member) tells old

-- -----------------------------------------------------------------------------------------------
-- Closing a cycle

/-- On a stack of different fields the cycle is the one that the way leads around. -/
theorem closeStack_eq_closeLoop {stack : List Field} {entry : Field} (unique : stack.Nodup)
    (onStack : entry ∈ stack)
    : closeStack stack entry = closeLoop (loopFrom entry stack.reverse) := by
  obtain ⟨older, newer, rfl⟩ := List.append_of_mem onStack
  obtain ⟨apart, -⟩ := List.nodup_cons.mp (List.nodup_middle.mp unique)
  have notOlder : entry ∉ older := fun member => apart (List.mem_append_left newer member)
  have notNewer : entry ∉ newer := fun member => apart (List.mem_append_right older member)
  have position : (older ++ entry :: newer).idxOf? entry = some older.length := by
    refine List.idxOf?_eq_some_iff.mpr ⟨by simp, by simp, fun place before same => notOlder ?_⟩
    rw [List.getElem_append_left before] at same
    exact same ▸ List.getElem_mem before
  have reversed : (older ++ entry :: newer).reverse = newer.reverse ++ entry :: older.reverse := by
    simp
  rw [closeStack, position, reversed, loopFrom_append (by simpa using notNewer)]
  simp [closeLoop]

/-- The search for a cycle ends whatever the graph is. Carried out with marks it needs no way longer
than there are fields, and either is through with all fields, when no cycle is found, or meets a
field that is on its stack and closes the cycle there. A cycle that is found is not empty, each of
its dependencies comes from a rule, each leads to the base of the next one and the last to the base
of the first, and no base is repeated.
-/
theorem findCycle_isGenuine (book : RuleBook)
    : (∀ depth,
        book.graph.fields.length ≤ depth
        → (∃ s, book.graph.surveyAll depth = .ok s ∧ book.graph.findCycle = none)
          ∨ ∃ stack entry,
              book.graph.surveyAll depth = .error (.met stack entry)
              ∧ entry ∈ stack
              ∧ book.graph.findCycle = some (closeStack stack entry))
      ∧ ∀ cycle,
          book.graph.findCycle = some cycle
          → cycle ≠ []
            ∧ (∀ d ∈ cycle, ∃ r ∈ book.rules, r.target = d.target ∧ d.base ∈ r.inputs)
            ∧ cycle.map (·.target) = (cycle.map (·.base)).rotate 1
            ∧ (cycle.map (·.base)).Nodup := by
  refine ⟨fun depth enough => ?_, fun cycle found => ?_⟩
  · have parallel := parallel_surveyAll enough
    unfold findCycle
    generalize book.graph.surveyAll depth = marked at parallel ⊢
    generalize book.graph.searchAll = listed at parallel ⊢
    cases parallel with
    | through => exact Or.inl ⟨_, rfl, rfl⟩
    | met unique onStack =>
        exact Or.inr ⟨_, _, rfl, onStack, by rw [closeStack_eq_closeLoop unique onStack]⟩
  · have genuine := simpleCycle_of_findCycle found
    refine ⟨genuine.nonempty, fun d member => ?_, genuine.linked, genuine.simple⟩
    exact RuleBook.mem_dependencies_graph.mp (genuine.dependencies d member)

/-- Waist, hip and seat derive each other in a circle, into which the belt leads. -/
def windingBook : RuleBook :=
  .ofRules <| [("waist", "belt"), ("hip", "waist"), ("seat", "hip"), ("waist", "seat")].zipIdx.map
    fun ((target, base), row) => {
      id := .ofRow row
      target := .named target
      relation := .proportion (.named base) 1.0
      priority := 1
    }

def windingCycle : List Dependency :=
  [
    { base := .named "waist", target := .named "hip" },
    { base := .named "hip", target := .named "seat" },
    { base := .named "seat", target := .named "waist" }
  ]

/-- The way from the belt to the circle is on the stack and not part of the cycle. -/
theorem windingCycle_isGenuine
    : windingBook.graph.findCycle = some windingCycle
      ∧ (∃ stack entry,
          windingBook.graph.surveyAll 4 = .error (.met stack entry)
          ∧ entry ∈ stack
          ∧ some windingCycle = some (closeStack stack entry))
      ∧ windingCycle ≠ []
      ∧ (∀ d ∈ windingCycle, ∃ r ∈ windingBook.rules, r.target = d.target ∧ d.base ∈ r.inputs)
      ∧ windingCycle.map (·.target) = (windingCycle.map (·.base)).rotate 1
      ∧ (windingCycle.map (·.base)).Nodup := by
  obtain ⟨ends, genuine⟩ := findCycle_isGenuine windingBook
  have found : windingBook.graph.findCycle = some windingCycle := by decide +kernel
  refine ⟨found, ?_, genuine windingCycle found⟩
  rcases ends 4 (by decide +kernel) with ⟨s, -, missed⟩ | met
  · exact absurd (missed.symm.trans found) (Option.some_ne_none _).symm
  · exact found ▸ met

end MeasureSheet.DependencyGraph
