import NoteQuery.Calendar.Iso
import NoteQuery.Json.Basic
import NoteQuery.Text.Search
import NoteQuery.Value.Basic

/-!
Values as text and as interchange data. Dates are written in universal time, which some near the ends
of the calendar do not have; then there is no text.
-/

namespace NoteQuery.Value
set_option autoImplicit false

def dateText (d : Stamp) : Except RangeError String := do
  return String.ofList (Iso.momentText (← d.moment))

def functionText (parameter : String) : String := "<lambda " ++ parameter ++ ">"

/-- Infinities and what is no number have no interchange form. -/
def numberJson : Number → Json
  | .int n => .number (.int n)
  | .real x => if x.isFinite then .number (.real x) else .null

mutual

/-- The value as interchange data. -/
def toJson : Value → Except RangeError Json
  | null => .ok .null
  | bool b => .ok (.bool b)
  | number n => .ok (numberJson n)
  | text s => .ok (.text s)
  | date d => .text <$> dateText d
  | array items => .array <$> itemsToJson items
  | object entries => .object <$> entriesToJson entries
  | function _ x _ => .ok (.text (functionText x))

def itemsToJson : List Value → Except RangeError (List Json)
  | [] => .ok []
  | v :: vs => do
    let j ← toJson v
    let js ← itemsToJson vs
    return j :: js

def entriesToJson : List (String × Value) → Except RangeError (List (String × Json))
  | [] => .ok []
  | (k, v) :: es => do
    let j ← toJson v
    let ms ← entriesToJson es
    return (k, j) :: ms

end

mutual

/-- The value as text functions and output show it. The members of an array stand side by side, an
object is written as interchange data. -/
def display : Value → Except RangeError String
  | null => .ok "null"
  | bool b => .ok (if b then "true" else "false")
  | number n => .ok n.text
  | text s => .ok s
  | date d => dateText d
  | array items => do return ",".intercalate (← displayAll items)
  | object entries => do return (Json.object (← entriesToJson entries)).render .controls
  | function _ x _ => .ok (functionText x)

def displayAll : List Value → Except RangeError (List String)
  | [] => .ok []
  | v :: vs => do
    let s ← display v
    let ss ← displayAll vs
    return s :: ss

end

mutual

/-- The value as a message names it, kinds kept apart and texts quoted. -/
def inspect : Value → String
  | null => "None"
  | bool b => if b then "True" else "False"
  | number n => n.exactText
  | text s => Text.quoted s
  | date d => String.ofList (Iso.stampText d)
  | array items => "[" ++ ", ".intercalate (inspectAll items) ++ "]"
  | object entries => "\x7b" ++ ", ".intercalate (inspectEntries entries) ++ "\x7d"
  | function _ x _ => functionText x

def inspectAll : List Value → List String
  | [] => []
  | v :: vs => inspect v :: inspectAll vs

def inspectEntries : List (String × Value) → List String
  | [] => []
  | (k, v) :: es => (Text.quoted k ++ ": " ++ inspect v) :: inspectEntries es

end

/-- The value as a message names it where it stands alone: a text by itself, a date with a space
before the time. -/
def mention : Value → String
  | text s => s
  | date (.day d) => String.ofList (Iso.dateText d)
  | date d => String.ofList ((Iso.stampText d).map fun c => if c == 'T' then ' ' else c)
  | v => v.inspect

end NoteQuery.Value
