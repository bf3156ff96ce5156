import NoteQuery.Number.Binary64

/-!
Decimal text of floating-point numbers. A number is written with the fewest significant digits that
read back as the same number, the nearest of those where several do. Positions from `10^-4` up to
`10^16` are written out, others with an exponent of at least two digits.
-/

namespace NoteQuery
set_option autoImplicit false

/-- The number `digits · 10^exponent`. -/
structure Decimal where
  digits : Nat
  exponent : Int
  deriving DecidableEq

namespace Decimal

/-- Numerator and denominator. -/
def ratio (d : Decimal) : Nat × Nat :=
  if 0 ≤ d.exponent then (d.digits * Nat.pow 10 d.exponent.toNat, 1)
  else (d.digits, Nat.pow 10 (-d.exponent).toNat)

/-- How many digits a number has. -/
def width (n : Nat) : Nat := (Nat.toDigits 10 n).length

/-- The nearest floating-point number. Exponents far outside the range are not computed out. -/
def toBinary64 (negative : Bool) (d : Decimal) : Binary64 :=
  let top := d.exponent + width d.digits
  if d.digits = 0 then .zero negative
  else if 400 < top then .infinite negative
  else if top < -400 then .zero negative
  else .nearest negative d.ratio.1 d.ratio.2

/-- Without zeros at the end of the digits, for at most `fuel` of them. -/
def trimmed : Nat → Decimal → Decimal
  | 0, d => d
  | fuel + 1, d =>
    if d.digits ≠ 0 ∧ d.digits % 10 = 0 then trimmed fuel ⟨d.digits / 10, d.exponent + 1⟩ else d

/-- The exponent of the largest power of ten that is at most `num / den`. -/
def floorLog10 (num den : Nat) : Int :=
  let e : Int := (width num : Int) - width den
  let fits (k : Int) : Bool :=
    if 0 ≤ k then den * Nat.pow 10 k.toNat ≤ num else den ≤ num * Nat.pow 10 (-k).toNat
  if fits e then e else e - 1

/-- Of the two neighbours of `num / den` on the grid `10^e`, the nearest that `good` accepts. -/
def onGrid? (good : Decimal → Bool) (num den : Nat) (e : Int) : Option Decimal :=
  let a := if 0 ≤ e then num else num * Nat.pow 10 (-e).toNat
  let b := if 0 ≤ e then den * Nat.pow 10 e.toNat else den
  let q := a / b
  let r := 2 * (a % b)
  let low : Decimal := ⟨q, e⟩
  let high : Decimal := ⟨q + 1, e⟩
  let order := if r < b ∨ (r = b ∧ q % 2 = 0) then [low, high] else [high, low]
  order.find? good

/-- The shortest decimal that reads back as the positive number `m · 2^e`. -/
def shortest (m : Nat) (e : Int) : Decimal :=
  let num := if 0 ≤ e then m <<< e.toNat else m
  let den := if 0 ≤ e then 1 else 1 <<< (-e).toNat
  let top := floorLog10 num den
  let good (d : Decimal) : Bool := Binary64.nearest false d.ratio.1 d.ratio.2 = .finite false m e
  let grids := (List.range 17).map fun k : Nat => top - (k : Int)
  match grids.findSome? (onGrid? good num den) with
  | some d => trimmed 20 d
  | none => ⟨m, 0⟩

/-- The exponents from which on, and below which, a number is written with an exponent. -/
def positional (top : Int) : Bool := -4 ≤ top && top < 16

def zeros (n : Nat) : List Char := List.replicate n '0'

/-- An exponent with its sign and at least two digits. -/
def exponentText (e : Int) : List Char :=
  let ds := Nat.toDigits 10 e.natAbs
  'e' :: (if e < 0 then '-' else '+') :: (if ds.length < 2 then '0' :: ds else ds)

/-- The written form of a positive decimal. -/
def text (d : Decimal) : List Char :=
  let ds := Nat.toDigits 10 d.digits
  let top := d.exponent + ds.length - 1
  if positional top then
    if 0 ≤ d.exponent then ds ++ zeros d.exponent.toNat ++ ['.', '0']
    else if 0 ≤ top then
      let whole := (top + 1).toNat
      ds.take whole ++ '.' :: ds.drop whole
    else '0' :: '.' :: zeros (-top - 1).toNat ++ ds
  else
    match ds with
    | [] => exponentText top
    | [c] => c :: exponentText top
    | c :: rest => c :: '.' :: rest ++ exponentText top

end Decimal

namespace Binary64

def signText (negative : Bool) : List Char := if negative then ['-'] else []

/-- The written form of a floating-point number, which always shows that it is one. -/
def text : Binary64 → String
  | nan => "nan"
  | infinite s => String.ofList (signText s ++ ['i', 'n', 'f'])
  | finite s m e =>
    String.ofList (signText s ++ if m = 0 then ['0', '.', '0'] else (Decimal.shortest m e).text)

end Binary64
end NoteQuery
