import NoteQuery.Calendar.Iso
import NoteQuery.Eval.Duration
import NoteQuery.Text.Search
import NoteQuery.Value.Compare

/-!
Functions on dates. Days named relative to the present are resolved by a clock that stands still
during an evaluation.
-/

namespace NoteQuery.DateFunction
set_option autoImplicit false
open NoteQuery.Text

/-- The day some days away, from its start. -/
def dayFrom (now : Moment) (days : Int) : Except RangeError Moment :=
  match now.midnight.addDays? days with
  | some m => .ok m
  | none => .error .dateOutOfRange

/-- The moment that a word names. -/
def named? (now : Moment) (word : String) : Except RangeError (Option Moment) :=
  match word with
  | "today" => .ok (some now.midnight)
  | "tomorrow" => some <$> dayFrom now 1
  | "yesterday" => some <$> dayFrom now (-1)
  | "now" => .ok (some now)
  | _ => .ok none

def ofMoment? : Option Moment → Value
  | some m => .date (.clock m)
  | none => .null

def date (now : Moment) (v : Value) : Outcome Value := do
  match v with
  | .text s =>
    match ← named? now (Text.lower (Text.strip s)) with
    | some m => return ofMoment? (some m)
    | none => return ofMoment? (← v.moment?)
  | _ => return ofMoment? (← v.moment?)

/-- The places of a format and what stands for them. -/
def substitutions (m : Moment) : List (String × List Char) :=
  let year := Iso.padded 4 m.date.year
  [("YYYY", year), ("YY", year.drop 2), ("MM", Iso.padded 2 m.date.month),
    ("DD", Iso.padded 2 m.date.day), ("HH", Iso.padded 2 m.time.hour),
    ("mm", Iso.padded 2 m.time.minute), ("ss", Iso.padded 2 m.time.second)]

/-- Fills the first place of each kind, one kind after the other. -/
def formatted (m : Moment) (format : List Char) : List Char :=
  (substitutions m).foldl (fun cs s => replaceFirst s.1.toList s.2 cs) format

def dateFormat (v format : Value) : Outcome Value := do
  match v.kind, format with
  | .date, .text f => fill f
  | .text, .text f => fill f
  | _, _ => return .null
where
  fill (f : String) : Outcome Value := do
    match ← v.moment? with
    | some m => return .text (String.ofList (formatted m f.toList))
    | none => return .null

/-- The seconds of the durations in a text. -/
def duration (v : Value) : Outcome Value := do
  match v with
  | .text s => return .int (← Duration.total s.toList)
  | _ => return .int 0

end NoteQuery.DateFunction
