/-! What ends the reading of a JSON text, and tokens, which can be read or passed over. -/

namespace MeasureSheet.Json

inductive Fault where
  /-- The text ends too early. -/
  | endOfText
  /-- The text is no JSON text, or holds a number out of range. -/
  | malformed
  /-- A value has the wrong shape. -/
  | mismatch
deriving DecidableEq, Repr

/-- Goes on unless there is a fault. -/
def passUnless : Option Fault → Except Fault Unit
  | none => .ok ()
  | some fault => .error fault

/-- A token of a text. Reading it is stricter than passing over it, so that a token may be passed
over and still have no value.
-/
structure Token (α : Type) where
  value : Except Fault α
  /-- The fault that stops one who passes over the token. -/
  obstacle : Option Fault

/-- A token that cannot even be passed over. -/
def Token.broken {α : Type} (fault : Fault) : Token α where
  value := .error fault
  obstacle := some fault

end MeasureSheet.Json
