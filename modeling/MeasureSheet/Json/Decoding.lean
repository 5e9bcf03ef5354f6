import MeasureSheet.Json.Document

/-! Reading documents as values of a known shape. A reader goes through a document from left to
right and stops at the first fault.
-/

namespace MeasureSheet.Json

namespace Document

variable {α σ : Type}

-- -----------------------------------------------------------------------------------------------
-- Scalars

def asString : Document → Except Fault String
  | string token => token.value.map String.ofList
  | d => .error d.mismatch

def asNumber : Document → Except Fault Number
  | number token => token.value
  | d => .error d.mismatch

/-- A number as a float, which an integer is rounded to. -/
def asFloat (d : Document) : Except Fault Float := do
  match ← d.asNumber with
  | .integer i => return if i < 0 then -i.natAbs.toUInt64.toFloat else i.natAbs.toUInt64.toFloat
  | .float x => return x

/-- An integer from `low` to `high`. -/
def asIntegerWithin (low high : Int) (d : Document) : Except Fault Int := do
  match ← d.asNumber with
  | .integer i => if low ≤ i ∧ i ≤ high then return i else .error .mismatch
  | .float _ => .error .mismatch

def asUInt32 (d : Document) : Except Fault UInt32 :=
  (d.asIntegerWithin 0 (UInt32.size - 1)).map fun i => UInt32.ofNat i.natAbs

def asInt32 (d : Document) : Except Fault Int32 :=
  (d.asIntegerWithin Int32.minValue.toInt Int32.maxValue.toInt).map Int32.ofInt

/-- A value that may be missing. -/
def asNullable (read : Document → Except Fault α) : Document → Except Fault (Option α)
  | null => .ok none
  | d => (read d).map some

-- -----------------------------------------------------------------------------------------------
-- Collections

def asList (read : Document → Except Fault α) : Document → Except Fault (List α)
  | array items ending => do
      let values ← items.mapM read
      passUnless ending
      return values
  | d => .error d.mismatch

/-- The members of an object in the order in which they stand, with repeated keys. -/
def asMembers (read : Document → Except Fault α) : Document → Except Fault (List (String × α))
  | object members ending => do
      let pairs ← members.mapM fun (key, value) => do
        let key ← key.value
        return (String.ofList key, ← read value)
      passUnless ending
      return pairs
  | d => .error d.mismatch

/-- What has been read of a member that may come once. -/
def once (known : Option α) (read : Document → Except Fault α) (value : Document)
    : Except Fault (Option α) :=
  match known with
  | some _ => .error .mismatch
  | none => (read value).map some

/-- What has been read of a member that has to be there. -/
def required (known : Option α) : Except Fault α :=
  match known with
  | some a => .ok a
  | none => .error .mismatch

/-- Reads members into a state, from an object, or from an array that holds the values of the
members with the given names in their order, from the first on.
-/
def asRecord (names : List String) (member : σ → String → Document → Except Fault σ) (start : σ)
    : Document → Except Fault σ
  | object members ending => do
      let state ← members.foldlM (fun state (key, value) => do
        let key ← key.value
        member state (String.ofList key) value) start
      passUnless ending
      return state
  | array items ending => do
      let state ← (names.zip items).foldlM (fun state (key, value) => member state key value) start
      if names.length < items.length then .error .malformed
      else do
        passUnless ending
        return state
  | d => .error d.mismatch

-- -----------------------------------------------------------------------------------------------
-- Tagged values

/-- What stands beside a tag: members, or values in the order of members. -/
inductive Contents where
  | members (pairs : List (String × Document))
  | values (items : List Document)

/-- A word out of several. -/
def asWord (word? : String → Option α) (d : Document) : Except Fault α := do
  match word? (← d.asString) with
  | some a => return a
  | none => .error .mismatch

/-- One more member of a tagged object, of which the tag and the members before are known. -/
def tagMember (tag : String) (word? : String → Option α) (level : Nat)
    (state : Option α × List (String × Document)) (key : Token (List Char)) (value : Document)
    : Except Fault (Option α × List (String × Document)) := do
  let key := String.ofList (← key.value)
  if key = tag then
    return (← once state.1 (asWord word?) value, state.2)
  else
    retain level value
    return (state.1, state.2 ++ [(key, value)])

/-- The tag of a value and what stands beside it, inside as many arrays and objects as `level` says.
In an array the tag comes first.
-/
def asTagged (tag : String) (word? : String → Option α) (level : Nat)
    : Document → Except Fault (α × Contents)
  | object members ending => do
      let (word, rest) ← members.foldlM (fun state (key, value) =>
        tagMember tag word? (level + 1) state key value) (none, [])
      passUnless ending
      return (← required word, .members rest)
  | array [] ending => do
      passUnless ending
      .error .mismatch
  | array (first :: items) ending => do
      let word ← asWord word? first
      retainItems (level + 1) items
      passUnless ending
      return (word, .values items)
  | d => .error d.mismatch

/-- The member with a name, which comes once. -/
def Contents.member (pairs : List (String × Document)) (name : String)
    : Except Fault Document :=
  match pairs.filter fun p => p.1 = name with
  | [(_, value)] => .ok value
  | _ => .error .mismatch

/-- The values of the members with the given names; other members do not count. -/
def Contents.select (names : List String) : Contents → Except Fault (List Document)
  | .members pairs => names.mapM (Contents.member pairs)
  | .values items => if items.length = names.length then .ok items else .error .mismatch

end Document

/-- Reads a text that holds one value. -/
def readText {α : Type} (read : Document → Except Fault α) (text : String) : Except Fault α := do
  let (document, ending) := Document.ofText text
  let value ← read document
  passUnless ending
  return value

end MeasureSheet.Json
