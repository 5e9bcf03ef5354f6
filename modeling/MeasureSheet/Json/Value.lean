import MeasureSheet.Decimal.Writing
import MeasureSheet.Json.Quoted

/-! JSON values and how they are written: compactly without any space, or one item to a line with
two spaces for each level.
-/

namespace MeasureSheet.Json

inductive Value where
  | null
  | integer (i : Int)
  | float (x : Float)
  | string (s : String)
  | array (items : List Value)
  | object (members : List (String × Value))

namespace Value

/-- The value if there is one, and null otherwise. -/
def ofOption {α : Type} (f : α → Value) : Option α → Value
  | some a => f a
  | none => null

def integerChars (i : Int) : List Char :=
  if i < 0 then '-' :: Nat.toDigits 10 i.natAbs else Nat.toDigits 10 i.natAbs

/-- A float in its shortest digits; there are no numbers for infinities and NaN. -/
def floatChars (x : Float) : List Char :=
  if x.isFinite then Decimal.chars .data x else ['n', 'u', 'l', 'l']

mutual

def compactChars : Value → List Char
  | null => ['n', 'u', 'l', 'l']
  | integer i => integerChars i
  | float x => floatChars x
  | string s => quote s.toList
  | array items => '[' :: compactItems items ++ [']']
  | object members => '{' :: compactMembers members ++ ['}']

def compactItems : List Value → List Char
  | [] => []
  | item :: items =>
      compactChars item ++ if items.isEmpty then [] else ',' :: compactItems items

def compactMembers : List (String × Value) → List Char
  | [] => []
  | (key, value) :: members =>
      quote key.toList ++ ':' :: compactChars value
        ++ if members.isEmpty then [] else ',' :: compactMembers members

end

/-- A new line at a level. -/
def lineBreak (level : Nat) : List Char :=
  '\n' :: List.replicate (2 * level) ' '

mutual

/-- The lines of a value that begins at a level. -/
def prettyChars (level : Nat) : Value → List Char
  | null => ['n', 'u', 'l', 'l']
  | integer i => integerChars i
  | float x => floatChars x
  | string s => quote s.toList
  | array items =>
      if items.isEmpty then ['[', ']']
      else '[' :: prettyItems (level + 1) items ++ lineBreak level ++ [']']
  | object members =>
      if members.isEmpty then ['{', '}']
      else '{' :: prettyMembers (level + 1) members ++ lineBreak level ++ ['}']

def prettyItems (level : Nat) : List Value → List Char
  | [] => []
  | item :: items =>
      lineBreak level ++ prettyChars level item
        ++ if items.isEmpty then [] else ',' :: prettyItems level items

def prettyMembers (level : Nat) : List (String × Value) → List Char
  | [] => []
  | (key, value) :: members =>
      lineBreak level ++ quote key.toList ++ ':' :: ' ' :: prettyChars level value
        ++ if members.isEmpty then [] else ',' :: prettyMembers level members

end

def compact (v : Value) : String :=
  String.ofList v.compactChars

def pretty (v : Value) : String :=
  String.ofList (v.prettyChars 0)

end Value

end MeasureSheet.Json
