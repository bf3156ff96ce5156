import NoteQuery.Calendar.Iso
import NoteQuery.Text.Blank
import NoteQuery.Text.Digit

/-!
Dates as people write them: `2024/01/05`, with or without a time, `January 5, 2024` and
`5 January 2024`, month names in full or cut to three letters, in any case.
-/

namespace NoteQuery.Written
set_option autoImplicit false
open NoteQuery.Text

/-- One element of a written form. -/
inductive Element where
  | year
  | month
  | monthName
  | shortMonthName
  | day
  | hour
  | minute
  | second
  | blanks
  | mark (c : Char)

def monthNames : List String :=
  ["january", "february", "march", "april", "may", "june", "july", "august", "september",
    "october", "november", "december"]

/-- The fields read so far, those not given being the first of their kind. -/
structure Fields where
  year : Nat
  month : Nat
  day : Nat
  hour : Nat
  minute : Nat
  second : Nat

/-- A place in a written form: the fields before it and the text after it. -/
abbrev Reading := Fields × List Char

/-- One digit between two ASCII digits. -/
def between (low high : Char) : List Char → List (Nat × List Char)
  | c :: cs => if low ≤ c ∧ c ≤ high then [(c.toNat - 48, cs)] else []
  | [] => []

def anyDigit : List Char → List (Nat × List Char)
  | c :: cs =>
    match digitValue? c with
    | some n => [(n, cs)]
    | none => []
  | [] => []

/-- Two digits in a row. -/
def pair (first second : List Char → List (Nat × List Char)) (cs : List Char) :
    List (Nat × List Char) :=
  (first cs).flatMap fun a => (second a.2).map fun b => (10 * a.1 + b.1, b.2)

/-- The name of a month, in any case. -/
def nameOf (names : List String) (cs : List Char) : List (Nat × List Char) :=
  names.zipIdx.filterMap fun (name, i) =>
    let n := name.length
    if String.ofList ((cs.take n).map Char.toLower) = name then some (i + 1, cs.drop n) else none

/-- The ways to read a number for an element, the preferred one first. -/
def numbers : Element → List Char → List (Nat × List Char)
  | .year, cs => pair anyDigit anyDigit cs |>.flatMap fun a =>
      (pair anyDigit anyDigit a.2).map fun b => (100 * a.1 + b.1, b.2)
  | .month, cs =>
    pair (between '1' '1') (between '0' '2') cs ++ pair (between '0' '0') (between '1' '9') cs ++
      between '1' '9' cs
  | .monthName, cs => nameOf monthNames cs
  | .shortMonthName, cs => nameOf (monthNames.map fun n => String.ofList (n.toList.take 3)) cs
  | .day, cs =>
    pair (between '3' '3') (between '0' '1') cs ++ pair (between '1' '2') anyDigit cs ++
      pair (between '0' '0') (between '1' '9') cs ++ between '1' '9' cs ++
      (match cs with
        | ' ' :: rest => between '1' '9' rest
        | _ => [])
  | .hour, cs =>
    pair (between '2' '2') (between '0' '3') cs ++ pair (between '0' '1') anyDigit cs ++
      anyDigit cs
  | .minute, cs => pair (between '0' '5') anyDigit cs ++ anyDigit cs
  | .second, cs =>
    pair (between '6' '6') (between '0' '1') cs ++ pair (between '0' '5') anyDigit cs ++
      anyDigit cs
  | _, _ => []

def store : Element → Nat → Fields → Fields
  | .year, n, f => { f with year := n }
  | .month, n, f => { f with month := n }
  | .monthName, n, f => { f with month := n }
  | .shortMonthName, n, f => { f with month := n }
  | .day, n, f => { f with day := n }
  | .hour, n, f => { f with hour := n }
  | .minute, n, f => { f with minute := n }
  | .second, n, f => { f with second := n }
  | _, _, f => f

/-- What may follow a run of blanks that stands here; the longest run comes first. -/
def afterBlanks (cs : List Char) : List (List Char) :=
  let run := (cs.takeWhile isBlank).length
  (List.range run).map fun k => cs.drop (run - k)

/-- The ways to read one element. -/
def step (e : Element) (r : Reading) : List Reading :=
  match e with
  | .blanks => (afterBlanks r.2).map fun rest => (r.1, rest)
  | .mark c =>
    match r.2 with
    | d :: rest => if c = d then [(r.1, rest)] else []
    | [] => []
  | e => (numbers e r.2).map fun n => (store e n.1 r.1, n.2)

/-- The preferred way to read a form at the start of a text. -/
def read? (form : List Element) (cs : List Char) : Option Reading :=
  (form.foldl (fun rs e => rs.flatMap (step e)) [(⟨1900, 1, 1, 0, 0, 0⟩, cs)]).head?

def slashed : List Element := [.year, .mark '/', .month, .mark '/', .day]

/-- The written forms, in the order in which they are tried. -/
def forms : List (List Element) :=
  [ slashed,
    slashed ++ [Element.blanks, .hour, .mark ':', .minute],
    slashed ++ [Element.blanks, .hour, .mark ':', .minute, .mark ':', .second],
    [.monthName, .blanks, .day, .mark ',', .blanks, .year],
    [.shortMonthName, .blanks, .day, .mark ',', .blanks, .year],
    [.day, .blanks, .monthName, .blanks, .year],
    [.day, .blanks, .shortMonthName, .blanks, .year] ]

/-- The moment that a text denotes in one form. The form must account for the whole text. -/
def inForm? (cs : List Char) (form : List Element) : Option Moment :=
  match read? form cs with
  | some (f, []) => do
    let date ← Date.of? f.year f.month f.day
    let time ← TimeOfDay.of? f.hour f.minute f.second 0
    return ⟨date, time⟩
  | _ => none

def moment? (cs : List Char) : Option Moment := forms.findSome? (inForm? cs)

end NoteQuery.Written

namespace NoteQuery.Moment

/-- The moment that a text denotes: in the international format, else as people write dates. -/
def ofText? (s : String) : Except RangeError (Option Moment) :=
  let cs := Text.stripChars s.toList
  if cs.isEmpty then .ok none
  else
    match Iso.stamp? cs with
    | some stamp => some <$> stamp.moment
    | none => .ok (Written.moment? cs)

end NoteQuery.Moment
