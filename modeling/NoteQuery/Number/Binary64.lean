/-!
Floating-point numbers with 53 significant bits, computed exactly and then rounded to the nearest
one, halves to the even neighbour. A finite number is a whole number of smallest units, `2^-1074`
each, so order and equality are those of integers. Main statement: `units` tells the sign apart.
-/

namespace NoteQuery
set_option autoImplicit false

/-- `± mantissa · 2^exponent`, an infinity, or not a number. -/
inductive Binary64 where
  | nan
  | infinite (negative : Bool)
  | finite (negative : Bool) (mantissa : Nat) (exponent : Int)
  deriving DecidableEq, Inhabited

namespace Binary64

/-- The exponent of the smallest unit. -/
def leastExponent : Int := -1074

def greatestExponent : Int := 971

/-- The form every rounded number has: as many significant bits as its exponent allows. -/
def Canonical : Binary64 → Prop
  | finite _ m e =>
    m < 1 <<< 53 ∧ leastExponent ≤ e ∧ e ≤ greatestExponent ∧ (e = leastExponent ∨ 1 <<< 52 ≤ m)
  | _ => True

/-- The quotient rounded to the nearest integer, halves to the even one. -/
def divNearest (num den : Nat) : Nat :=
  let q := num / den
  let r := 2 * (num % den)
  if r < den then q else if den < r then q + 1 else if q % 2 = 0 then q else q + 1

/-- Numerator and denominator of `num / den / 2^e`. -/
def scaled (num den : Nat) (e : Int) : Nat × Nat :=
  if 0 ≤ e then (num, den <<< e.toNat) else (num <<< (-e).toNat, den)

/-- The exponent of the largest power of two that is at most `num / den`. -/
def floorLog2 (num den : Nat) : Int :=
  let e : Int := (num.log2 : Int) - den.log2
  let r := scaled num den e
  if r.2 ≤ r.1 then e else e - 1

def zero (negative : Bool) : Binary64 := finite negative 0 leastExponent

/-- The number nearest to `num / den`; what lies beyond the greatest one becomes infinite. -/
def nearest (negative : Bool) (num den : Nat) : Binary64 :=
  if num = 0 then zero negative
  else
    let e := max leastExponent (floorLog2 num den - 52)
    let r := scaled num den e
    let m := divNearest r.1 r.2
    let n : Nat × Int := if m = 1 <<< 53 then (1 <<< 52, e + 1) else (m, e)
    if greatestExponent < n.2 then infinite negative else finite negative n.1 n.2

/-- The number nearest to `± m · 2^e`. -/
def nearestScaled (negative : Bool) (m : Nat) (e : Int) : Binary64 :=
  if 0 ≤ e then nearest negative (m <<< e.toNat) 1 else nearest negative m (1 <<< (-e).toNat)

/-- How many smallest units make one. -/
def unitsPerOne : Int := (1 <<< 1074 : Nat)

/-- A finite number as a count of smallest units. -/
def units (negative : Bool) (mantissa : Nat) (exponent : Int) : Int :=
  let u : Int := (mantissa <<< (exponent - leastExponent).toNat : Nat)
  if negative then -u else u

theorem units_nonneg (m : Nat) (e : Int) : 0 ≤ units false m e := by
  simp only [units, Bool.false_eq_true, if_false]
  exact Int.natCast_nonneg _

theorem units_neg (m : Nat) (e : Int) : units true m e = -units false m e := by
  simp [units]

/-- The number nearest to a count of smallest units; `zeroSign` is the sign of a sum of nothing. -/
def ofUnits (zeroSign : Bool) (u : Int) : Binary64 :=
  if u = 0 then zero zeroSign else nearestScaled (u < 0) u.natAbs leastExponent

def ofInt (n : Int) : Binary64 := nearest (n < 0) n.natAbs 1

def isNaN : Binary64 → Bool
  | nan => true
  | _ => false

def isInfinite : Binary64 → Bool
  | infinite _ => true
  | _ => false

def isFinite : Binary64 → Bool
  | finite .. => true
  | _ => false

def isZero : Binary64 → Bool
  | finite _ m _ => m = 0
  | _ => false

def neg : Binary64 → Binary64
  | nan => nan
  | infinite s => infinite !s
  | finite s m e => finite (!s) m e

theorem neg_neg (x : Binary64) : x.neg.neg = x := by cases x <;> simp [neg]

def add : Binary64 → Binary64 → Binary64
  | nan, _ => nan
  | _, nan => nan
  | infinite s, infinite t => if s = t then infinite s else nan
  | infinite s, finite .. => infinite s
  | finite .., infinite t => infinite t
  | finite s m e, finite t n f => ofUnits (s && t) (units s m e + units t n f)

def sub (x y : Binary64) : Binary64 := x.add y.neg

def mul : Binary64 → Binary64 → Binary64
  | nan, _ => nan
  | _, nan => nan
  | infinite s, infinite t => infinite (s != t)
  | infinite s, finite t n _ => if n = 0 then nan else infinite (s != t)
  | finite s m _, infinite t => if m = 0 then nan else infinite (s != t)
  | finite s m e, finite t n f => nearestScaled (s != t) (m * n) (e + f)

/-- The quotient; a zero divisor gives no number. -/
def div : Binary64 → Binary64 → Binary64
  | nan, _ => nan
  | _, nan => nan
  | infinite _, infinite _ => nan
  | infinite s, finite t _ _ => infinite (s != t)
  | finite s _ _, infinite t => zero (s != t)
  | finite s m e, finite t n f =>
    if n = 0 then nan
    else if f ≤ e then nearest (s != t) (m <<< (e - f).toNat) n
    else nearest (s != t) m (n <<< (f - e).toNat)

/-- The remainder with the sign of the dividend, which is exact; none where it has no meaning. -/
def rem? : Binary64 → Binary64 → Option Binary64
  | nan, _ => some nan
  | _, nan => some nan
  | infinite _, _ => none
  | finite s m e, infinite _ => some (finite s m e)
  | finite s m e, finite t n f =>
    if n = 0 then none
    else
      let r := (units s m e).natAbs % (units t n f).natAbs
      some (if r = 0 then zero s else nearestScaled s r leastExponent)

/-- The greatest integer that is not greater. -/
def floor? : Binary64 → Option Int
  | finite s m e => some (Int.fdiv (units s m e) unitsPerOne)
  | _ => none

/-- The integer part, rounding toward zero. -/
def truncate? : Binary64 → Option Int
  | finite s m e => some (Int.tdiv (units s m e) unitsPerOne)
  | _ => none

def isInteger : Binary64 → Bool
  | finite s m e => units s m e % unitsPerOne = 0
  | _ => false

end Binary64
end NoteQuery
