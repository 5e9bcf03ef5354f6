import MeasureSheet.Rule

/-! Rule books: the rules of a sheet, filed by target. Rules of one target stay in the order in
which they were entered, and a target leaves the book with its last rule.
-/

namespace MeasureSheet

-- -----------------------------------------------------------------------------------------------
-- Candidate lists

/-- Puts a rule before the first rule of its priority or a higher one. -/
def insertByPriority (rule : Rule) : List Rule → List Rule
  | [] => [rule]
  | r :: rs =>
      if r.priority < rule.priority then r :: insertByPriority rule rs else rule :: r :: rs

/-- Rules in ascending priority, those of equal priority in their previous order. They are sorted by
insertion, which is recursion on the list, so that sheets can be compiled by evaluation.
-/
def sortByPriority (rules : List Rule) : List Rule :=
  rules.foldr insertByPriority []

-- -----------------------------------------------------------------------------------------------
-- Books

/-- Rules filed by target. -/
structure RuleBook where
  filed : FieldMap (List Rule)
deriving DecidableEq, BEq

namespace RuleBook

instance : EmptyCollection RuleBook := ⟨{ filed := ∅ }⟩

instance : Inhabited RuleBook := ⟨∅⟩

/-- The rules filed under a target. -/
def rulesFor (book : RuleBook) (target : Field) : List Rule :=
  (book.filed.find? target).getD []

/-- All rules, by target and within a target as entered. -/
def rules (book : RuleBook) : List Rule :=
  book.filed.values.flatten

/-- The targets in lexical order. -/
def targets (book : RuleBook) : List Field :=
  book.filed.keys

def hasTarget (book : RuleBook) (target : Field) : Bool :=
  book.filed.contains target

def targetCount (book : RuleBook) : Nat :=
  book.filed.size

def ruleCount (book : RuleBook) : Nat :=
  book.rules.length

def isEmpty (book : RuleBook) : Bool :=
  book.filed.isEmpty

/-- The first rule with a number. -/
def find? (book : RuleBook) (id : RuleId) : Option Rule :=
  book.rules.find? fun r => r.id = id

/-- Files a rule behind the rules of its target. -/
def insert (book : RuleBook) (rule : Rule) : RuleBook where
  filed := book.filed.insert rule.target (book.rulesFor rule.target ++ [rule])

def ofRules (rules : List Rule) : RuleBook :=
  rules.foldl insert ∅

/-- Files a list of rules under a target, which leaves the book when the list is empty. -/
def refile (book : RuleBook) (target : Field) (rules : List Rule) : RuleBook where
  filed := if rules.isEmpty then book.filed.erase target else book.filed.insert target rules

/-- Takes the first rule with a number out of the book. -/
def remove? (book : RuleBook) (id : RuleId) : Option (Rule × RuleBook) :=
  match book.filed.entries.find? fun p => p.2.any fun r => r.id = id with
  | none => none
  | some (target, rules) =>
      match rules.find? fun r => r.id = id with
      | none => none
      | some rule => some (rule, book.refile target (rules.eraseP fun r => r.id = id))

/-- The book with every target's rules in ascending priority. -/
def sorted (book : RuleBook) : RuleBook where
  filed := book.filed.map fun _ rules => sortByPriority rules

end RuleBook

end MeasureSheet
