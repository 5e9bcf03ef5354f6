import MeasureSheet.Json.Numeral
import MeasureSheet.Json.Quoted

/-! JSON documents: what a text shows from left to right, up to the first place that is not JSON.
Such a place is a node of the document, so that a reader that looks for a value of some shape meets
faults of shape and faults of the text in the order in which they stand.
-/

namespace MeasureSheet.Json

inductive Document where
  | null
  | bool (b : Bool)
  | number (token : Token Number)
  | string (token : Token (List Char))
  /-- The items of an array, and the fault behind the last one. -/
  | array (items : List Document) (ending : Option Fault)
  /-- The members of an object, and the fault behind the last one. -/
  | object (members : List (Token (List Char) × Document)) (ending : Option Fault)
  /-- A word that begins like null, true or false and is none of them. -/
  | halfWord (fault : Fault)
  /-- Nothing that a value begins with. -/
  | broken (fault : Fault)

/-- Where a text goes on behind a value, unless it ends or breaks off there. -/
abbrev Rest := Option (List Char)

def isSpace (c : Char) : Bool :=
  c = ' ' || c = '\n' || c = '\t' || c = '\r'

def skipSpace (cs : List Char) : List Char :=
  cs.dropWhile isSpace

-- -----------------------------------------------------------------------------------------------
-- From text to documents

/-- What follows a word that has to stand here. -/
def splitWord : (word cs : List Char) → Except Fault (List Char)
  | [], cs => .ok cs
  | _ :: _, [] => .error .endOfText
  | w :: word, c :: cs => if c = w then splitWord word cs else .error .malformed

/-- A document that a word stands for. -/
def ofWord (found : Document) (word cs : List Char) : Document × Rest :=
  match splitWord word cs with
  | .ok rest => (found, some rest)
  | .error fault => (.halfWord fault, none)

mutual

/-- The value that a text begins with. The first argument bounds the steps. -/
def splitValue : Nat → List Char → Document × Rest
  | 0, _ => (.broken .malformed, none)
  | steps + 1, cs =>
      match skipSpace cs with
      | [] => (.broken .endOfText, none)
      | '"' :: rest =>
          let (token, rest) := splitString rest
          (.string token, rest)
      | '[' :: rest =>
          match skipSpace rest with
          | [] => (.array [] (some .endOfText), none)
          | ']' :: rest => (.array [] none, some rest)
          | c :: rest =>
              let (items, ending, rest) := splitItems steps (c :: rest)
              (.array items ending, rest)
      | '{' :: rest =>
          match skipSpace rest with
          | [] => (.object [] (some .endOfText), none)
          | '}' :: rest => (.object [] none, some rest)
          | '"' :: rest =>
              let (members, ending, rest) := splitMembers steps rest
              (.object members ending, rest)
          | _ :: _ => (.object [] (some .malformed), none)
      | 'n' :: rest => ofWord .null ['u', 'l', 'l'] rest
      | 't' :: rest => ofWord (.bool true) ['r', 'u', 'e'] rest
      | 'f' :: rest => ofWord (.bool false) ['a', 'l', 's', 'e'] rest
      | c :: rest =>
          if c = '-' ∨ c.isDigit then
            let (token, rest) := splitNumber (c :: rest)
            (.number token, rest)
          else (.broken .malformed, none)

/-- The items of an array from the next one on. -/
def splitItems : Nat → List Char → List Document × Option Fault × Rest
  | 0, _ => ([], some .malformed, none)
  | steps + 1, cs =>
      match splitValue steps cs with
      | (item, none) => ([item], none, none)
      | (item, some rest) =>
          match skipSpace rest with
          | [] => ([item], some .endOfText, none)
          | ']' :: rest => ([item], none, some rest)
          | ',' :: rest =>
              let (items, ending, rest) := splitItems steps rest
              (item :: items, ending, rest)
          | _ :: _ => ([item], some .malformed, none)

/-- The members of an object from the next one on, behind the opening quote of its key. -/
def splitMembers : Nat → List Char → List (Token (List Char) × Document) × Option Fault × Rest
  | 0, _ => ([], some .malformed, none)
  | steps + 1, cs =>
      match splitString cs with
      | (key, none) => ([(key, .broken (key.obstacle.getD .malformed))], none, none)
      | (key, some rest) =>
          match skipSpace rest with
          | [] => ([(key, .broken .endOfText)], none, none)
          | ':' :: rest =>
              match splitValue steps rest with
              | (value, none) => ([(key, value)], none, none)
              | (value, some rest) =>
                  match skipSpace rest with
                  | [] => ([(key, value)], some .endOfText, none)
                  | '}' :: rest => ([(key, value)], none, some rest)
                  | ',' :: rest =>
                      match skipSpace rest with
                      | [] => ([(key, value), (.broken .endOfText, .broken .endOfText)], none, none)
                      | '"' :: rest =>
                          let (members, ending, rest) := splitMembers steps rest
                          ((key, value) :: members, ending, rest)
                      | _ :: _ =>
                          ([(key, value), (.broken .malformed, .broken .malformed)], none, none)
                  | _ :: _ => ([(key, value)], some .malformed, none)
          | _ :: _ => ([(key, .broken .malformed)], none, none)

end

/-- A text as a document, and the fault of what follows it. -/
def Document.ofText (text : String) : Document × Option Fault :=
  let cs := text.toList
  match splitValue (2 * cs.length + 2) cs with
  | (document, none) => (document, none)
  | (document, some rest) =>
      (document, if (skipSpace rest).isEmpty then none else some .malformed)

-- -----------------------------------------------------------------------------------------------
-- Passing over documents

namespace Document

/-- The fault of a value in a place for values of another shape. -/
def mismatch : Document → Fault
  | number token =>
      match token.value with
      | .ok _ => .mismatch
      | .error fault => fault
  | string token =>
      match token.value with
      | .ok _ => .mismatch
      | .error fault => fault
  | halfWord fault => fault
  | broken fault => fault
  | _ => .mismatch

mutual

/-- Passes over a value that no one reads. -/
def skip : Document → Except Fault Unit
  | null => .ok ()
  | bool _ => .ok ()
  | number token => passUnless token.obstacle
  | string token => passUnless token.obstacle
  | array items ending => do
      skipItems items
      passUnless ending
  | object members ending => do
      skipMembers members
      passUnless ending
  | halfWord fault => .error fault
  | broken fault => .error fault

def skipItems : List Document → Except Fault Unit
  | [] => .ok ()
  | item :: items => do
      skip item
      skipItems items

def skipMembers : List (Token (List Char) × Document) → Except Fault Unit
  | [] => .ok ()
  | (key, value) :: members => do
      passUnless key.obstacle
      skip value
      skipMembers members

end

/-- How many arrays and objects may stand inside each other where values are read for later. -/
def depthLimit : Nat :=
  127

mutual

/-- Reads a value for later, inside as many arrays and objects as `level` says, so that every token
of it has a value.
-/
def retain (level : Nat) : Document → Except Fault Unit
  | null => .ok ()
  | bool _ => .ok ()
  | number token => token.value.map fun _ => ()
  | string token => token.value.map fun _ => ()
  | array items ending =>
      if level < depthLimit then do
        retainItems (level + 1) items
        passUnless ending
      else .error .malformed
  | object members ending =>
      if level < depthLimit then do
        retainMembers (level + 1) members
        passUnless ending
      else .error .malformed
  | halfWord fault => .error fault
  | broken fault => .error fault

def retainItems (level : Nat) : List Document → Except Fault Unit
  | [] => .ok ()
  | item :: items => do
      retain level item
      retainItems level items

def retainMembers (level : Nat) : List (Token (List Char) × Document) → Except Fault Unit
  | [] => .ok ()
  | (key, value) :: members => do
      discard key.value
      retain level value
      retainMembers level members

end

end Document

end MeasureSheet.Json
