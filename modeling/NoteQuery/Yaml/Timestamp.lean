import NoteQuery.Calendar.Moment
import NoteQuery.Text.Digit
import NoteQuery.Yaml.Node

/-! Timestamps of documents: a day, or a day with a time and a distance from universal time. -/

namespace NoteQuery.Yaml
set_option autoImplicit false

def partsForm : Option Pattern := formPattern? <|
  "([0-9][0-9][0-9][0-9])-([0-9][0-9]?)-([0-9][0-9]?)" ++
  "(?:(?:[Tt]|[ \\t]+)([0-9][0-9]?):([0-9][0-9]):([0-9][0-9])(?:\\.([0-9]*))?" ++
  "(?:[ \\t]*(?:(Z)|([-+])([0-9][0-9]?)(?::([0-9][0-9]))?))?)?"

/-- The number that a group of a form holds. -/
def groupNumber? (s : Pattern.Spot) (n : Nat) : Option Nat := (s.group? n).map Text.naturalOfDigits

/-- Microseconds of a fraction, of which six digits count. -/
def fractionMicros (digits : List Char) : Nat :=
  let ds := digits.take 6
  Text.naturalOfDigits ds * Nat.pow 10 (6 - ds.length)

def readDate (year month day : Nat) : Except Fault Date :=
  match Date.of? year month day with
  | some d => .ok d
  | none =>
    if year = 0 ∨ 9999 < year then .error (.badYear year)
    else if month = 0 ∨ 12 < month then .error .badMonth
    else .error .badDay

def readTime (hour minute second micro : Nat) : Except Fault TimeOfDay :=
  match TimeOfDay.of? hour minute second micro with
  | some t => .ok t
  | none =>
    if 23 < hour then .error .badHour
    else if 59 < minute then .error .badMinute
    else .error .badSecond

/-- The distance from universal time in microseconds, which is less than a day. -/
def readOffset? (s : Pattern.Spot) : Except Fault (Option Int) :=
  match s.group? 9 with
  | some sign =>
    let size : Int := (groupNumber? s 10).getD 0 * 60 + (groupNumber? s 11).getD 0
    let minutes := if sign = ['-'] then -size else size
    if 1440 ≤ size then .error (.badOffset minutes) else .ok (some (minutes * 60000000))
  | none => .ok (if (s.group? 8).isSome then some 0 else none)

def readTimestamp (cs : List Char) : Except Fault Stamp :=
  match matchForm? partsForm cs with
  | none => .error .badTimestamp
  | some s => do
    let year := (groupNumber? s 1).getD 0
    let month := (groupNumber? s 2).getD 0
    let day := (groupNumber? s 3).getD 0
    match groupNumber? s 4 with
    | none => return .day (← readDate year month day)
    | some hour =>
      let offset? ← readOffset? s
      let d ← readDate year month day
      let micro := fractionMicros ((s.group? 7).getD [])
      let t ← readTime hour ((groupNumber? s 5).getD 0) ((groupNumber? s 6).getD 0) micro
      match offset? with
      | none => return .clock ⟨d, t⟩
      | some offset => return .zoned ⟨d, t⟩ offset

end NoteQuery.Yaml
