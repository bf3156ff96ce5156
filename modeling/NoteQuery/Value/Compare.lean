import NoteQuery.Calendar.Written
import NoteQuery.Number.Numeral
import NoteQuery.Value.Basic

/-!
Equality and order of values. A date meets texts and numbers that denote dates; apart from that,
values of different kinds are unequal and neither is less.
-/

namespace NoteQuery.Value
set_option autoImplicit false

/-- The moment that a value denotes. -/
def moment? : Value → Except RangeError (Option Moment)
  | date d => some <$> d.moment
  | text s => Moment.ofText? s
  | number n => .ok (Moment.ofEpochMillis? n)
  | _ => .ok none

/-- The number that a value counts as in sums: numbers, and texts that start with a numeral. -/
def number? : Value → Option Number
  | number n => if n.isNaN then none else some n
  | text s => (Numeral.leading? s.toList).map .real
  | _ => none

mutual

/-- Equality of values of one kind, member by member; objects are equal whatever the order of their
entries. -/
def deepEqual : Value → Value → Except RangeError Bool
  | null, null => .ok true
  | bool a, bool b => .ok (a == b)
  | number a, number b => .ok (a.eq b)
  | text a, text b => .ok (a == b)
  | date a, date b => do return decide ((← a.moment) = (← b.moment))
  | array as, array bs => if as.length = bs.length then itemsEqual as bs else .ok false
  | object as, object bs =>
    if as.all (fun e => Record.has bs e.1) && bs.all (fun e => Record.has as e.1) then
      entriesEqual as bs
    else .ok false
  | function _ x a, function _ y b => .ok (x == y && a.same b)
  | _, _ => .ok false

def itemsEqual : List Value → List Value → Except RangeError Bool
  | [], [] => .ok true
  | a :: as, b :: bs => do
    if ← deepEqual a b then itemsEqual as bs else return false
  | _, _ => .ok false

def entriesEqual : List (String × Value) → Record → Except RangeError Bool
  | [], _ => .ok true
  | (k, a) :: as, bs => do
    if ← deepEqual a (Record.get bs k) then entriesEqual as bs else return false

end

def isDate : Value → Bool
  | date _ => true
  | _ => false

/-- A test on the moments that two values denote, false where one denotes none. -/
def onMoments (test : Moment → Moment → Bool) (a b : Value) : Except RangeError Bool := do
  let m ← a.moment?
  let n ← b.moment?
  match m, n with
  | some m, some n => return test m n
  | _, _ => return false

/-- Equality as expressions test it: dates meet what denotes dates, functions are equal only to
themselves. -/
def equal (a b : Value) : Except RangeError Bool :=
  if a.isDate || b.isDate then onMoments (fun m n => decide (m = n)) a b
  else
    match a, b with
    | function o _ _, function p _ _ => .ok (o == p)
    | a, b => deepEqual a b

def less (a b : Value) : Except RangeError Bool :=
  if a.isDate || b.isDate then onMoments Moment.lt a b
  else
    match a, b with
    | number m, number n => .ok (m.lt n)
    | text s, text t => .ok (s < t)
    | _, _ => .ok false

/-- Three-way comparison; values of which neither is less count as equal. -/
def compare (a b : Value) : Except RangeError Ordering := do
  if ← less a b then return .lt
  else if ← less b a then return .gt
  else return .eq

end NoteQuery.Value
