import NoteQuery.Eval.Context
import NoteQuery.Number.Numeral
import NoteQuery.Row.File

/-!
Rows: a note with its file, its fields and its text. A path of names with points between them leads
through the fields, or through the facts about the file where there is no field of that name.
-/

namespace NoteQuery
set_option autoImplicit false
open NoteQuery.Text

structure Row where
  file : FileInfo
  fields : Record
  text? : Option String

namespace Row

def context (r : Row) : Context := ⟨r.fields, r.file.record, []⟩

/-- The row as a value. -/
def record (r : Row) : Record := [("file", .object r.file.record), ("fields", .object r.fields)]

/-- The names of a path. -/
def pathParts (path : String) : List String := (pieces ['.'] path.toList).map String.ofList

/-- What a name or a number leads to in a value. A name of digits leads into an array, and there it
has to be a number. -/
def child (v : Value) (part : String) : Outcome Value :=
  match v with
  | .object entries => .ok (Record.get entries part)
  | .array items =>
    let cs := part.toList
    if cs.isEmpty || !cs.all isDigitLike then .ok .null
    else if cs.all isDecimal then .ok ((items[naturalOfDigits cs]?).getD .null)
    else .error (.badPosition part)
  | _ => .ok .null

/-- Where a path from a value leads to; it ends at null. -/
def descend (v : Value) : List String → Outcome Value
  | [] => .ok v
  | part :: parts => do
    match ← child v part with
    | .null => return .null
    | w => descend w parts

/-- The value at a path, null where it leads nowhere. -/
def lookup (r : Row) (path : String) : Outcome Value :=
  match pathParts path with
  | [] => .ok .null
  | first :: rest =>
    match r.fields.get? first with
    | some v => descend v rest
    | none => if first = Context.fileName then descend (.object r.file.record) rest else .ok .null

/-- A value with another one at a path; none where the path leaves the objects. -/
def replaceAt? (v : Value) : List String → Value → Option Value
  | [], new => some new
  | part :: parts, new =>
    match v with
    | .object entries =>
      (replaceAt? (Record.get entries part) parts new).map fun w =>
        .object (Record.insert entries part w)
    | _ => none

/-- The row with another value at a path. Where the path leads nowhere the row stays as it is. -/
def withValue (r : Row) (path : String) (v : Value) : Row :=
  match pathParts path with
  | [] => r
  | first :: rest =>
    if r.fields.has first || rest.isEmpty then
      match replaceAt? (r.fields.get first) rest v with
      | some w => { r with fields := r.fields.insert first w }
      | none => r
    else if first = Context.fileName then
      match rest with
      | [key] =>
        match FileAttribute.ofKey? key with
        | some a => { r with file := r.file.set a v }
        | none => r
      | _ => r
    else r

/-- A row for each item of the array at a path; a row without items there stays as it is. -/
def flatten (r : Row) (path : String) : Outcome (List Row) := do
  match ← r.lookup path with
  | .array (item :: items) => return (item :: items).map (r.withValue path)
  | _ => return [r]

def flattenAll (rows : List Row) (path : String) : Outcome (List Row) := do
  return (← rows.mapM fun r => r.flatten path).flatten

end Row
end NoteQuery
