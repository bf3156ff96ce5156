import NoteQuery.Value.Text
import NoteQuery.Eval.Failure

/-!
What an expression is evaluated in: the fields of a row, the facts about its file, and the parameters
bound around it. A parameter hides the file and the fields, and the file hides a field of that name.
What is not there is null.
-/

namespace NoteQuery
set_option autoImplicit false

structure Context where
  fields : Record
  file : Record
  scope : Record

namespace Context

/-- The name under which the file stands. -/
def fileName : String := "file"

def bind (c : Context) (name : String) (v : Value) : Context :=
  { c with scope := c.scope.insert name v }

def resolve (c : Context) (name : String) : Value :=
  match c.scope.get? name with
  | some v => v
  | none => if name = fileName then .object c.file else c.fields.get name

/-- A binding shows only under its own name. -/
theorem resolve_bind (c : Context) (name other : String) (v : Value) :
    (c.bind name v).resolve other = if other = name then v else c.resolve other := by
  unfold resolve bind
  rw [Record.get?_insert]
  by_cases h : other = name <;> simp [h]

end Context

namespace Value

/-- An item of an array by its position. A number that is no integer is no position. -/
def itemAt (items : List Value) (n : Number) : Value :=
  match n.integer? with
  | some (.ofNat i) => (items[i]?).getD .null
  | _ => .null

/-- A member of a value: the length or an item of an array, or an entry of an object, under the text
of the key. -/
def member : Value → Value → Except RangeError Value
  | array items, text key => .ok (if key = "length" then int items.length else .null)
  | array items, number n => .ok (itemAt items n)
  | object entries, key => do return Record.get entries (← key.display)
  | _, _ => .ok .null

end Value
end NoteQuery
