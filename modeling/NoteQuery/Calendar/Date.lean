/-!
Days of the Gregorian calendar, years 1 to 9999. Every date is a day number, counted from day 1 in
the year 1.
-/

namespace NoteQuery
set_option autoImplicit false

namespace Calendar

def isLeap (year : Nat) : Bool := year % 4 = 0 && (year % 100 ≠ 0 || year % 400 = 0)

def daysInMonth (year month : Nat) : Nat :=
  if month = 2 then if isLeap year then 29 else 28
  else if month = 4 ∨ month = 6 ∨ month = 9 ∨ month = 11 then 30
  else 31

def daysInYear (year : Nat) : Nat := if isLeap year then 366 else 365

/-- The days of all years before this one. -/
def daysBeforeYear (year : Nat) : Nat :=
  let y := year - 1
  365 * y + y / 4 - y / 100 + y / 400

/-- The days of the year before this month. -/
def daysBeforeMonth (year month : Nat) : Nat :=
  (List.range (month - 1)).foldl (fun days m => days + daysInMonth year (m + 1)) 0

def IsDate (year month day : Nat) : Prop :=
  1 ≤ year ∧ year ≤ 9999 ∧ 1 ≤ month ∧ month ≤ 12 ∧ 1 ≤ day ∧ day ≤ daysInMonth year month

instance (year month day : Nat) : Decidable (IsDate year month day) :=
  inferInstanceAs (Decidable (_ ∧ _))

end Calendar

structure Date where
  year : Nat
  month : Nat
  day : Nat
  isDate : Calendar.IsDate year month day
  deriving DecidableEq

namespace Date
open Calendar

def of? (year month day : Nat) : Option Date :=
  if h : IsDate year month day then some ⟨year, month, day, h⟩ else none

instance : Inhabited Date := ⟨⟨1, 1, 1, by decide⟩⟩

def ordinal (d : Date) : Nat :=
  daysBeforeYear d.year + daysBeforeMonth d.year d.month + d.day

/-- The month and day that follow `rest` days of a year, tried month by month. -/
def monthAndDay (year : Nat) : Nat → Nat → Nat → Nat × Nat
  | 0, month, rest => (month, rest + 1)
  | fuel + 1, month, rest =>
    if rest < daysInMonth year month then (month, rest + 1)
    else monthAndDay year fuel (month + 1) (rest - daysInMonth year month)

/-- The year of a day number: the last one that starts before it. -/
def yearOf (ordinal : Nat) : Nat :=
  let guess := (ordinal - 1) * 400 / 146097 + 1
  if ordinal ≤ daysBeforeYear guess then guess - 1
  else if daysBeforeYear (guess + 1) < ordinal then guess + 1
  else guess

def ofOrdinal? (ordinal : Nat) : Option Date :=
  let year := yearOf ordinal
  let md := monthAndDay year 11 1 (ordinal - 1 - daysBeforeYear year)
  if ordinal = 0 then none else of? year md.1 md.2

/-- Day of the week, Monday being 0. -/
def weekday (d : Date) : Nat := (d.ordinal + 6) % 7

/-- The Monday of the first week that lies mostly in a year. -/
def firstMonday (year : Nat) : Int :=
  let newYear : Int := daysBeforeYear year + 1
  let weekday := (newYear + 6) % 7
  let monday := newYear - weekday
  if 3 < weekday then monday + 7 else monday

/-- How many weeks a year has: 53 if it starts on a Thursday, or on a Wednesday and is a leap
year. -/
def weeksInYear (year : Nat) : Nat :=
  let first := (daysBeforeYear year + 7) % 7
  if first = 3 ∨ (first = 2 ∧ isLeap year) then 53 else 52

/-- The date of a weekday, Monday being 1, in a week of a year. -/
def ofWeek? (year week day : Nat) : Option Date :=
  if 1 ≤ year ∧ year ≤ 9999 ∧ 1 ≤ week ∧ week ≤ weeksInYear year ∧ 1 ≤ day ∧ day ≤ 7 then
    let ordinal := firstMonday year + ((week - 1) * 7 + (day - 1) : Nat)
    if 0 < ordinal then ofOrdinal? ordinal.toNat else none
  else none

end Date
end NoteQuery
