import NoteQuery.Calendar.Moment
import NoteQuery.Text.Quoted

/-!
The international date format. Written: `2024-01-02T03:04:05`, a fraction of six digits only where
there is one, and the distance from universal time. Read: dashes and colons may be left out, the day
may be given by its week, any character may stand between date and time, the fraction may be of any
length, and the time may end in a zone.
-/

namespace NoteQuery.Iso
set_option autoImplicit false

/-- A number with zeros in front up to a width. -/
def padded (width n : Nat) : List Char :=
  let ds := Nat.toDigits 10 n
  List.replicate (width - ds.length) '0' ++ ds

def dateText (d : Date) : List Char :=
  padded 4 d.year ++ '-' :: padded 2 d.month ++ '-' :: padded 2 d.day

def timeText (t : TimeOfDay) : List Char :=
  padded 2 t.hour ++ ':' :: padded 2 t.minute ++ ':' :: padded 2 t.second ++
    if t.micro = 0 then [] else '.' :: padded 6 t.micro

def momentText (m : Moment) : List Char := dateText m.date ++ 'T' :: timeText m.time

/-- A distance in microseconds: hours and minutes, then seconds and a fraction where there are
any. -/
def offsetText (offset : Int) : List Char :=
  let n := offset.natAbs
  let seconds := n / 1000000
  let clock := padded 2 (seconds / 3600) ++ ':' :: padded 2 (seconds / 60 % 60)
  let rest :=
    if n % 1000000 ≠ 0 then ':' :: padded 2 (seconds % 60) ++ '.' :: padded 6 (n % 1000000)
    else if seconds % 60 ≠ 0 then ':' :: padded 2 (seconds % 60)
    else []
  (if offset < 0 then '-' else '+') :: clock ++ rest

def stampText : Stamp → List Char
  | .day d => dateText d
  | .clock m => momentText m
  | .zoned m offset => momentText m ++ offsetText offset

/-- The value of exactly `n` decimal digits, and the rest. -/
def digits? : Nat → List Char → Option (Nat × List Char)
  | n, cs =>
    let ds := cs.take n
    if ds.length = n ∧ ds.all Char.isDigit then
      some (ds.foldl (fun k c => 10 * k + (c.toNat - 48)) 0, cs.drop n)
    else none

/-- How many characters of the text belong to the date. -/
def dateWidth (cs : List Char) : Nat :=
  let size := cs.length
  if size = 7 then 7
  else if cs[4]? = some '-' then
    if cs[5]? = some 'W' then
      if size < 8 then size
      else if cs[8]? = some '-' then
        if (cs[10]?.map Char.isDigit).getD false then 8 else 10
      else 8
    else 10
  else if cs[4]? = some 'W' then
    let run := ((cs.drop 7).takeWhile Char.isDigit).length
    if run < 2 then 7 + run else if (7 + run) % 2 = 0 then 7 else 8
  else 8

def weekDate? (year : Nat) (dashed : Bool) (cs : List Char) : Option Date := do
  let (week, rest) ← digits? 2 cs
  match dashed, rest with
  | _, [] => Date.ofWeek? year week 1
  | true, '-' :: rest =>
    let (day, _) ← digits? 1 rest
    Date.ofWeek? year week day
  | true, _ => none
  | false, _ =>
    let (day, _) ← digits? 1 rest
    Date.ofWeek? year week day

/-- The date that the characters of the date part denote. -/
def date? (cs : List Char) : Option Date := do
  let (year, rest) ← digits? 4 cs
  let dashed := rest.head? = some '-'
  let rest := if dashed then rest.drop 1 else rest
  match rest with
  | 'W' :: rest => weekDate? year dashed rest
  | _ =>
    let (month, rest) ← digits? 2 rest
    if dashed ∧ rest.head? ≠ some '-' then none
    else
      let (day, _) ← digits? 2 (if dashed then rest.drop 1 else rest)
      Date.of? year month day

/-- What a reader of times of day has found: hours, minutes and seconds as far as they are given,
microseconds, and whether the text ended there. -/
structure ClockReading where
  fields : List Nat
  micro : Nat
  ended : Bool

namespace ClockReading

def field (r : ClockReading) (i : Nat) : Nat := (r.fields[i]?).getD 0

def time? (r : ClockReading) : Option TimeOfDay :=
  TimeOfDay.of? (r.field 0) (r.field 1) (r.field 2) r.micro

def micros (r : ClockReading) : Nat :=
  ((r.field 0 * 60 + r.field 1) * 60 + r.field 2) * 1000000 + r.micro

end ClockReading

/-- A text also ends at a NUL character. -/
def endMark : Char := Char.ofNat 0

/-- A fraction of a second: up to six digits count, further ones are dropped. `stop` is what follows
the text. -/
def fraction? (stop : Char) (fields : List Nat) (cs : List Char) : Option ClockReading :=
  let used := cs.take 6
  (digits? used.length used).map fun r =>
    let next := (cs.dropWhile Char.isDigit).headD stop
    ⟨fields, r.1 * Nat.pow 10 (6 - used.length), next == endMark⟩

/-- Reads up to `parts` more two-digit fields. The first separator decides whether colons stand
between the fields; a point or a comma starts the fraction, and so does what follows the last
field. -/
def clock? (stop : Char) : Nat → Bool → List Nat → List Char → Option ClockReading
  | 0, _, fields, cs => fraction? stop fields cs
  | parts + 1, colons, fields, cs => do
    let (n, rest) ← digits? 2 cs
    let found := fields ++ [n]
    match rest with
    | [] => some ⟨found, 0, stop == endMark⟩
    | [c] => some ⟨found, 0, c == endMark⟩
    | c :: tail =>
      let colons := if fields.isEmpty then c == ':' else colons
      if colons && c == ':' then clock? stop parts colons found tail
      else if c == '.' || c == ',' then fraction? stop found tail
      else if colons then none
      else clock? stop parts colons found rest

def isZoneMark (c : Char) : Bool := c == '+' || c == '-' || c == 'Z'

/-- A distance from universal time, in microseconds. -/
def offset? : List Char → Option Int
  | 'Z' :: cs => if cs.headD endMark == endMark then some 0 else none
  | c :: cs => do
    let r ← clock? endMark 3 false [] cs
    if !r.ended || Moment.microsPerDay ≤ r.micros then none
    else some (if c == '-' then -(r.micros : Int) else r.micros)
  | [] => none

/-- A time of day, with the distance from universal time if it ends in a zone. In front of a zone
the time need not have been read to its end. -/
def time? (cs : List Char) : Option (TimeOfDay × Option Int) := do
  let zone := cs.dropWhile fun c => !isZoneMark c
  let r ← clock? (zone.headD endMark) 3 false [] (cs.takeWhile fun c => !isZoneMark c)
  let time ← r.time?
  if zone.isEmpty then
    if r.ended then return (time, none) else none
  else return (time, some (← offset? zone))

/-- The stamp that a text denotes. -/
def stamp? (cs : List Char) : Option Stamp := do
  let width := dateWidth cs
  let date ← date? (cs.take width)
  match cs.drop width with
  | [] => return .clock (.ofDate date)
  | _ :: rest =>
    let (time, offset) ← time? rest
    match offset with
    | none => return .clock ⟨date, time⟩
    | some o => return .zoned ⟨date, time⟩ o

end NoteQuery.Iso
