import NoteQuery.Number.Decimal

/-!
Numbers: integers of any size and floating-point numbers. Integers are computed exactly and become
floating only when they meet a floating-point number or are divided. Order and equality compare the
exact values, so `1` and `1.0` are one number.
-/

namespace NoteQuery
set_option autoImplicit false

/-- Why a computation has no result in the range of its kind of values. -/
inductive RangeError where
  | integerTooLarge
  | quotientTooLarge
  | infinityToInteger
  | floatDivisionByZero
  | outsideDomain
  | dateOutOfRange
  | repetitionTooLarge
  deriving DecidableEq

namespace RangeError

def message : RangeError → String
  | integerTooLarge => "int too large to convert to float"
  | quotientTooLarge => "integer division result too large for a float"
  | infinityToInteger => "cannot convert float infinity to integer"
  | floatDivisionByZero => "float division by zero"
  | outsideDomain => "math domain error"
  | dateOutOfRange => "date value out of range"
  | repetitionTooLarge => "the repetition number is too large"

end RangeError

inductive Number where
  | int (n : Int)
  | real (x : Binary64)
  deriving DecidableEq, Inhabited

namespace Number

/-- Where a number lies: an infinity, or a count of smallest units. -/
inductive Place where
  | bottom
  | point (units : Int)
  | top
  deriving DecidableEq

namespace Place

def lt : Place → Place → Bool
  | point a, point b => a < b
  | _, bottom => false
  | top, _ => false
  | bottom, _ => true
  | _, top => true

theorem lt_irrefl (p : Place) : p.lt p = false := by cases p <;> simp [lt]

end Place

/-- The place of a number; what is not a number has none. -/
def place? : Number → Option Place
  | int n => some (.point (n * Binary64.unitsPerOne))
  | real .nan => none
  | real (.infinite s) => some (if s then .bottom else .top)
  | real (.finite s m e) => some (.point (Binary64.units s m e))

def lt (a b : Number) : Bool :=
  match a.place?, b.place? with
  | some p, some q => p.lt q
  | _, _ => false

/-- Equality of values; what is not a number differs from everything. -/
def eq (a b : Number) : Bool :=
  match a.place?, b.place? with
  | some p, some q => p = q
  | _, _ => false

theorem eq_comm (a b : Number) : a.eq b = b.eq a := by
  unfold eq
  cases a.place? with
  | none => cases b.place? <;> rfl
  | some p => cases b.place? with
    | none => rfl
    | some q => exact decide_eq_decide.2 ⟨Eq.symm, Eq.symm⟩

def isNaN : Number → Bool
  | real x => x.isNaN
  | int _ => false

def isZero : Number → Bool
  | int n => n = 0
  | real x => x.isZero

/-- A number other than zero that is one. -/
def isNonzero (a : Number) : Bool := !a.isZero && !a.isNaN

def toBinary64 : Number → Except RangeError Binary64
  | real x => .ok x
  | int n =>
    let x := Binary64.ofInt n
    if x.isInfinite then .error .integerTooLarge else .ok x

/-- An operation that integers have on their own. -/
def lift (onInt : Int → Int → Int) (onReal : Binary64 → Binary64 → Binary64) :
    Number → Number → Except RangeError Number
  | int a, int b => .ok (int (onInt a b))
  | a, b => do
    let x ← a.toBinary64
    let y ← b.toBinary64
    return real (onReal x y)

def add : Number → Number → Except RangeError Number := lift (· + ·) .add

def sub : Number → Number → Except RangeError Number := lift (· - ·) .sub

def mul : Number → Number → Except RangeError Number := lift (· * ·) .mul

/-- The quotient, always floating; that of integers is rounded once. -/
def div : Number → Number → Except RangeError Number
  | int a, int b =>
    let x := Binary64.nearest (decide (a < 0) != decide (b < 0)) a.natAbs b.natAbs
    if b = 0 then .error .floatDivisionByZero
    else if x.isInfinite then .error .quotientTooLarge
    else .ok (real x)
  | a, b => do
    let x ← a.toBinary64
    let y ← b.toBinary64
    if y.isZero then .error .floatDivisionByZero else return real (x.div y)

/-- The remainder with the sign of the dividend. -/
def rem : Number → Number → Except RangeError Number
  | int a, int b => .ok (int (a.tmod b))
  | a, b => do
    let x ← a.toBinary64
    let y ← b.toBinary64
    match x.rem? y with
    | some r => return real r
    | none => .error .outsideDomain

def neg : Number → Number
  | int n => int (-n)
  | real x => real x.neg

/-- The integer part. -/
def truncate : Number → Except RangeError Int
  | int n => .ok n
  | real x =>
    match x.truncate? with
    | some n => .ok n
    | none => .error .infinityToInteger

/-- The integer that a number is equal to, if it is one. -/
def integer? : Number → Option Int
  | int n => some n
  | real x => if x.isInteger then x.truncate? else none

/-- The plain written form: a floating-point number that is an integer is written as one. -/
def text (a : Number) : String :=
  match a.integer?, a with
  | some n, _ => toString n
  | none, real x => x.text
  | none, int n => toString n

/-- The written form that keeps the kind of number apart. -/
def exactText : Number → String
  | int n => toString n
  | real x => x.text

/-- The sum from left to right, starting at the integer zero. -/
def sum (ns : List Number) : Except RangeError Number := ns.foldlM add (int 0)

def average? (ns : List Number) : Except RangeError (Option Number) :=
  if ns.isEmpty then .ok none
  else do
    let total ← sum ns
    some <$> total.div (int ns.length)

/-- The first of the least numbers. -/
def least? : List Number → Option Number
  | [] => none
  | n :: ns => some (ns.foldl (fun best m => if m.lt best then m else best) n)

/-- The first of the greatest numbers. -/
def greatest? : List Number → Option Number
  | [] => none
  | n :: ns => some (ns.foldl (fun best m => if best.lt m then m else best) n)

/-- A power of ten: an integer, or floating for a negative exponent. -/
def powerOfTen (e : Int) : Number :=
  if 0 ≤ e then int (Nat.pow 10 e.toNat)
  else if e < -400 then real (.zero false)
  else real (.nearest false 1 (Nat.pow 10 (-e).toNat))

/-- Rounds to a number of decimal places, halves upward: the number is scaled by a power of ten,
one half is added, and the integer below is scaled back. Without places the result is an integer. -/
def roundTo (a : Number) (places : Int) : Except RangeError Number := do
  let scale := powerOfTen places
  let scaled ← a.mul scale
  let shifted ← scaled.add (real (.nearest false 1 2))
  let whole ← floorValue shifted
  let rounded ← (int whole).div scale
  match rounded.integer? with
  | some n => return if places ≤ 0 then int n else rounded
  | none => return rounded
where
  /-- The integer below. -/
  floorValue : Number → Except RangeError Int
    | int n => .ok n
    | real x =>
      match x.floor? with
      | some n => .ok n
      | none => .error .infinityToInteger

end Number
end NoteQuery
