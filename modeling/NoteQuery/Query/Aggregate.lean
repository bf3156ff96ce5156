import NoteQuery.Number.Basic
import NoteQuery.Row.Basic
import NoteQuery.Text.Case
import NoteQuery.Value.Compare

/-!
Aggregates: one value from all rows of a group. They are written like function calls with at most a
path between the parentheses.
-/

namespace NoteQuery
set_option autoImplicit false
open NoteQuery.Text

inductive AggregateKind where
  | count
  | sum
  | avg
  | min
  | max
  | first
  | last
  | list
  deriving DecidableEq

namespace AggregateKind

def name : AggregateKind → String
  | count => "COUNT"
  | sum => "SUM"
  | avg => "AVG"
  | min => "MIN"
  | max => "MAX"
  | first => "FIRST"
  | last => "LAST"
  | list => "LIST"

def all : List AggregateKind := [count, sum, avg, min, max, first, last, list]

def ofName? (name : String) : Option AggregateKind := all.find? fun k => k.name == name

end AggregateKind

structure Aggregate where
  kind : AggregateKind
  field? : Option String
  alias? : Option String
  deriving DecidableEq

/-- The name of an aggregate that is read like one but is none. -/
structure BadAggregate where
  word : String
  deriving DecidableEq

namespace BadAggregate

def message (b : BadAggregate) : String := quoted b.word ++ " is not a valid AggregateType"

end BadAggregate

def nonempty? (s : String) : Option String := if s.isEmpty then none else some s

namespace Aggregate

/-- The path between the parentheses, if there is one. -/
def path? (a : Aggregate) : Option String := a.field?.bind nonempty?

/-- The name that the kind and the path make. -/
def defaultName (a : Aggregate) : String :=
  lower <| match a.kind, a.path? with
    | .count, none => "count"
    | k, p => k.name ++ "_" ++ p.getD "value"

def name (a : Aggregate) : String := (a.alias?.bind nonempty?).getD a.defaultName

/-- Reads a word after blanks; at least one blank has to be there. -/
def afterBlanks? (cs : List Char) : Option (List Char) :=
  if cs.head?.any isBlank then some (skipBlanks cs) else none

/-- The name after an aggregate, up to the end of the text. -/
def readAlias? (cs : List Char) : Option (Option String) :=
  if cs.isEmpty then some none
  else do
    let (_, rest) ← readWord? "as".toList (← afterBlanks? cs)
    let word ← afterBlanks? rest
    if !word.isEmpty && word.all isWord then some (some (String.ofList word)) else none

/-- Reads `KIND(path) [AS name]`; answers the word that names the kind, in upper case, the path and
the name. -/
def readParts? (cs : List Char) : Option (String × String × Option String) := do
  let (word, rest) ← AggregateKind.all.findSome? fun k => readWord? (lowerChars k.name.toList) cs
  match skipBlanks rest with
  | '(' :: inner =>
    match cut? [')'] inner with
    | some (path, rest) =>
      let name ← readAlias? rest
      return (String.ofList (upperChars word), String.ofList (stripChars path), name)
    | none => none
  | _ => none

/-- Reads an aggregate; none where the text is no aggregate. -/
def read (s : String) : Except BadAggregate (Option Aggregate) :=
  match readParts? (stripChars s.toList) with
  | none => .ok none
  | some (word, path, name) =>
    match AggregateKind.ofName? word with
    | none => .error ⟨word⟩
    | some kind => .ok (some ⟨kind, nonempty? path, name⟩)

end Aggregate

namespace Value

/-- Whether a value stands for nothing: null, false, zero, or what is empty. -/
def isNothing : Value → Bool
  | null => true
  | bool b => !b
  | number n => n.isZero
  | text s => s.isEmpty
  | array items => items.isEmpty
  | object entries => entries.isEmpty
  | _ => false

def asNumber? : Value → Option Number
  | number n => some n
  | _ => none

end Value

namespace Aggregate

/-- The first of the values that no other one betters. -/
def bestFrom (better : Ordering) (best : Value) : List Value → Except RangeError Value
  | [] => .ok best
  | v :: vs => do
    if (← v.compare best) == better then bestFrom better v vs else bestFrom better best vs

/-- The first extreme of the values other than null. -/
def extreme (better : Ordering) (vs : List Value) : Except RangeError Value :=
  match vs.filter fun v => !v.isNull with
  | [] => .ok .null
  | v :: vs => bestFrom better v vs

def valuesAt (rows : List Row) (path : String) : Outcome (List Value) :=
  rows.mapM fun r => r.lookup path

/-- What a row is listed as: the name of its file, or else the path. -/
def listed (r : Row) : Value := if r.file.name.isNothing then r.file.path else r.file.name

/-- One row as a value: what its path leads to, or all of it. -/
def pick (path? : Option String) : Option Row → Outcome Value
  | none => .ok .null
  | some r =>
    match path? with
    | some p => r.lookup p
    | none => .ok (.object r.record)

/-- The aggregate of rows in their order. -/
def compute (a : Aggregate) (rows : List Row) : Outcome Value :=
  match a.kind, a.path? with
  | .count, _ => .ok (.int rows.length)
  | .first, p => pick p rows.head?
  | .last, p => pick p rows.getLast?
  | .list, none => .ok (.array (rows.map listed))
  | .list, some p => do return .array ((← valuesAt rows p).filter fun v => !v.isNull)
  | _, none => .ok .null
  | .sum, some p => do
    return .number (← Number.sum ((← valuesAt rows p).filterMap Value.asNumber?))
  | .avg, some p => do
    match ← Number.average? ((← valuesAt rows p).filterMap Value.asNumber?) with
    | some n => return .number n
    | none => return .null
  | .min, some p => do extreme .lt (← valuesAt rows p)
  | .max, some p => do extreme .gt (← valuesAt rows p)

end Aggregate
end NoteQuery
