import NoteQuery.Calendar.Date
import NoteQuery.Number.Basic

/-!
Moments: a date with a time of day, without a time zone, to the microsecond. They are ordered by the
microseconds since the start of the year 1.
-/

namespace NoteQuery
set_option autoImplicit false

structure TimeOfDay where
  hour : Nat
  minute : Nat
  second : Nat
  micro : Nat
  isTime : hour < 24 ∧ minute < 60 ∧ second < 60 ∧ micro < 1000000
  deriving DecidableEq

namespace TimeOfDay

def midnight : TimeOfDay := ⟨0, 0, 0, 0, by decide⟩

def of? (hour minute second micro : Nat) : Option TimeOfDay :=
  if h : hour < 24 ∧ minute < 60 ∧ second < 60 ∧ micro < 1000000 then
    some ⟨hour, minute, second, micro, h⟩
  else none

def micros (t : TimeOfDay) : Nat :=
  ((t.hour * 60 + t.minute) * 60 + t.second) * 1000000 + t.micro

/-- The time that is this many microseconds, without whole days, after midnight. -/
def ofMicros (n : Nat) : TimeOfDay :=
  ⟨n / 3600000000 % 24, n / 60000000 % 60, n / 1000000 % 60, n % 1000000, by omega⟩

end TimeOfDay

structure Moment where
  date : Date
  time : TimeOfDay
  deriving DecidableEq

namespace Moment

instance : Inhabited Moment := ⟨⟨default, .midnight⟩⟩

def microsPerDay : Nat := 86400000000

def micros (m : Moment) : Nat := (m.date.ordinal - 1) * microsPerDay + m.time.micros

def ofMicros? (n : Int) : Option Moment :=
  if n < 0 then none
  else
    (Date.ofOrdinal? (n.toNat / microsPerDay + 1)).map fun d =>
      ⟨d, .ofMicros (n.toNat % microsPerDay)⟩

def lt (a b : Moment) : Bool := a.micros < b.micros

def ofDate (d : Date) : Moment := ⟨d, .midnight⟩

def midnight (m : Moment) : Moment := ofDate m.date

def addDays? (m : Moment) (days : Int) : Option Moment :=
  ofMicros? (m.micros + days * microsPerDay)

/-- Microseconds from the start of the year 1 to the start of 1970. -/
def epochMicros : Int := 62135596800000000

/-- The nearest integer to a number of microseconds below one million, halves to the even one. -/
def nearestMicro (x : Binary64) : Int :=
  match x with
  | .finite s m e =>
    let r := Binary64.scaled m 1 (-e)
    let n : Int := Binary64.divNearest r.1 r.2
    if s then -n else n
  | _ => 0

/-- The moment a number of seconds after the start of 1970. The fraction is scaled to microseconds
in floating point. Moments of the first day of all are refused with those before it. -/
def ofEpochSeconds? (x : Binary64) : Option Moment :=
  match x.truncate?, x with
  | some whole, .finite s m e =>
    let fraction := Binary64.ofUnits s (Binary64.units s m e - whole * Binary64.unitsPerOne)
    let micro := nearestMicro (fraction.mul (.ofInt 1000000))
    let total := epochMicros + whole * 1000000 + micro
    if total < microsPerDay then none else ofMicros? total
  | _, _ => none

/-- The moment a number of milliseconds after the start of 1970. -/
def ofEpochMillis? (a : Number) : Option Moment :=
  match a.div (.int 1000) with
  | .ok (.real x) => ofEpochSeconds? x
  | _ => none

end Moment

/-- A date as a value holds it: a day, a moment, or a moment at a distance, in microseconds, from
universal time. -/
inductive Stamp where
  | day (d : Date)
  | clock (m : Moment)
  | zoned (m : Moment) (offset : Int)
  deriving DecidableEq

namespace Stamp

/-- The moment in universal time, without a zone. -/
def moment : Stamp → Except RangeError Moment
  | day d => .ok (.ofDate d)
  | clock m => .ok m
  | zoned m offset =>
    match Moment.ofMicros? (m.micros - offset) with
    | some u => .ok u
    | none => .error .dateOutOfRange

end Stamp
end NoteQuery
