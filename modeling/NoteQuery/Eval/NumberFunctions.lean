import NoteQuery.Eval.TextFunctions

/-!
Functions on numbers. Texts that start with a numeral count as numbers, arrays as their items, and
what is no number is left out.
-/

namespace NoteQuery
set_option autoImplicit false

mutual

/-- The numbers in a value. -/
def Value.numbers : Value → List Number
  | .array items => Value.allNumbers items
  | v => v.number?.toList

def Value.allNumbers : List Value → List Number
  | [] => []
  | v :: vs => v.numbers ++ Value.allNumbers vs

end

namespace NumberFunction

def ofNumber? : Option Number → Value
  | some n => .number n
  | none => .null

def min (args : List Value) : Value := ofNumber? (Number.least? (Value.allNumbers args))

def max (args : List Value) : Value := ofNumber? (Number.greatest? (Value.allNumbers args))

def sum (args : List Value) : Outcome Value := do
  return .number (← Number.sum (Value.allNumbers args))

def average (args : List Value) : Outcome Value := do
  return ofNumber? (← Number.average? (Value.allNumbers args))

/-- Rounds to a number of places; infinities stay as they are. -/
def round (v places : Value) : Outcome Value := do
  match v.number? with
  | none => return .null
  | some (.real (.infinite s)) => return .number (.real (.infinite s))
  | some n => return .number (← n.roundTo (← TextFunction.position places 0))

end NumberFunction
end NoteQuery
