import MeasureSheet.Json.Fault

/-! Strings in JSON texts: how they are quoted, and how quoted strings are read. A quoted string is
first split into units, characters and codes of escapes; reading it joins the codes of surrogate
pairs, and passing over it does not look at them.
-/

namespace MeasureSheet.Json

-- -----------------------------------------------------------------------------------------------
-- Writing

def hexDigit (n : Nat) : Char :=
  if n < 10 then Char.ofNat ('0'.toNat + n) else Char.ofNat ('a'.toNat + (n - 10))

/-- A character inside quotes. -/
def escapeChar (c : Char) : List Char :=
  if c = '"' then ['\\', '"']
  else if c = '\\' then ['\\', '\\']
  else if c = '\x08' then ['\\', 'b']
  else if c = '\x0c' then ['\\', 'f']
  else if c = '\n' then ['\\', 'n']
  else if c = '\r' then ['\\', 'r']
  else if c = '\t' then ['\\', 't']
  else if c.toNat < 0x20 then
    ['\\', 'u', '0', '0', hexDigit (c.toNat / 16), hexDigit (c.toNat % 16)]
  else [c]

def quote (cs : List Char) : List Char :=
  '"' :: cs.flatMap escapeChar ++ ['"']

-- -----------------------------------------------------------------------------------------------
-- Units

inductive StringUnit where
  | char (c : Char)
  /-- The code of an escape of the form `\uXXXX`. -/
  | code (n : Nat)
deriving DecidableEq

def hexValue? (c : Char) : Option Nat :=
  if c.isDigit then some (c.toNat - '0'.toNat)
  else if 'a' ≤ c ∧ c ≤ 'f' then some (c.toNat - 'a'.toNat + 10)
  else if 'A' ≤ c ∧ c ≤ 'F' then some (c.toNat - 'A'.toNat + 10)
  else none

/-- The code that four hexadecimal digits write. -/
def hexCode? (a b c d : Char) : Option Nat := do
  return (((← hexValue? a) * 16 + (← hexValue? b)) * 16 + (← hexValue? c)) * 16 + (← hexValue? d)

/-- The character that a backslash and a letter stand for. -/
def shortEscape? : Char → Option Char
  | '"' => some '"'
  | '\\' => some '\\'
  | '/' => some '/'
  | 'b' => some '\x08'
  | 'f' => some '\x0c'
  | 'n' => some '\n'
  | 'r' => some '\r'
  | 't' => some '\t'
  | _ => none

/-- The fault of an escape for which there are not four characters left. -/
def shortCodeFault (cs : List Char) : Fault :=
  if cs.foldl (fun bytes c => bytes + c.utf8Size) 0 < 4 then .endOfText else .malformed

/-- The units up to the closing quote, and what follows it. -/
def splitUnits : List Char → List StringUnit × Except Fault (List Char)
  | [] => ([], .error .endOfText)
  | c :: rest =>
      if c = '"' then ([], .ok rest)
      else if c = '\\' then
        match rest with
        | [] => ([], .error .endOfText)
        | 'u' :: digits =>
            match digits with
            | x :: y :: z :: w :: rest =>
                match hexCode? x y z w with
                | some n =>
                    let (units, rest) := splitUnits rest
                    (.code n :: units, rest)
                | none => ([], .error .malformed)
            | short => ([], .error (shortCodeFault short))
        | letter :: rest =>
            match shortEscape? letter with
            | some c =>
                let (units, rest) := splitUnits rest
                (.char c :: units, rest)
            | none => ([], .error .malformed)
      else if c.toNat < 0x20 then ([], .error .malformed)
      else
        let (units, rest) := splitUnits rest
        (.char c :: units, rest)

-- -----------------------------------------------------------------------------------------------
-- Reading

def isLeadingSurrogate (n : Nat) : Bool :=
  0xD800 ≤ n && n ≤ 0xDBFF

def isTrailingSurrogate (n : Nat) : Bool :=
  0xDC00 ≤ n && n ≤ 0xDFFF

/-- The character of a surrogate pair. -/
def joinSurrogates (leading trailing : Nat) : Char :=
  Char.ofNat (0x10000 + (leading - 0xD800) * 0x400 + (trailing - 0xDC00))

/-- The characters of units, where the surrogates come in pairs. The first argument is the fault
behind the last unit.
-/
def joinUnits (ending : Option Fault) : List StringUnit → Except Fault (List Char)
  | [] =>
      match ending with
      | some fault => .error fault
      | none => .ok []
  | .char c :: units => (joinUnits ending units).map (c :: ·)
  | .code n :: units =>
      if isTrailingSurrogate n then .error .malformed
      else if isLeadingSurrogate n then
        match units with
        | [] => .error (ending.getD .malformed)
        | .code m :: units =>
            if isTrailingSurrogate m then (joinUnits ending units).map (joinSurrogates n m :: ·)
            else .error .malformed
        | .char _ :: _ => .error .malformed
      else (joinUnits ending units).map (Char.ofNat n :: ·)

/-- The string that a text begins with, behind its opening quote, and what follows it. -/
def splitString (cs : List Char) : Token (List Char) × Option (List Char) :=
  match splitUnits cs with
  | (units, .ok rest) => ({ value := joinUnits none units, obstacle := none }, some rest)
  | (units, .error fault) =>
      ({ value := joinUnits (some fault) units, obstacle := some fault }, none)

end MeasureSheet.Json
