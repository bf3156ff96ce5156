import NoteQuery.Number.Basic
import NoteQuery.Text.Blank
import NoteQuery.Text.Digit

/-!
Reading numerals. Digits of every script count, single underscores may stand between digits, and
blanks around the numeral are skipped.
-/

namespace NoteQuery.Numeral
set_option autoImplicit false
open NoteQuery.Text

/-- The digits that may follow a digit, each with at most one underscore before it, and the rest. -/
def moreDigits : List Char → List Char × List Char
  | '_' :: c :: cs =>
    if isDecimal c then
      let r := moreDigits cs
      (c :: r.1, r.2)
    else ([], '_' :: c :: cs)
  | c :: cs =>
    if isDecimal c then
      let r := moreDigits cs
      (c :: r.1, r.2)
    else ([], c :: cs)
  | [] => ([], [])

/-- Digits with single underscores between them, and the rest; at least one digit is needed. -/
def digitRun? : List Char → Option (List Char × List Char)
  | [] => none
  | c :: cs =>
    if isDecimal c then
      let r := moreDigits cs
      some (c :: r.1, r.2)
    else none

/-- An optional sign: whether it is a minus, and the rest. -/
def sign : List Char → Bool × List Char
  | '-' :: cs => (true, cs)
  | '+' :: cs => (false, cs)
  | cs => (false, cs)

def signed (negative : Bool) (n : Nat) : Int := if negative then -n else n

def integer? (cs : List Char) : Option Int :=
  let s := sign (stripChars cs)
  match digitRun? s.2 with
  | some (ds, []) => some (signed s.1 (naturalOfDigits ds))
  | _ => none

/-- The exponent part, if one stands there, and the rest. -/
def exponent? : List Char → Option (Int × List Char)
  | c :: cs =>
    if c == 'e' || c == 'E' then
      let s := sign cs
      (digitRun? s.2).map fun r => (signed s.1 (naturalOfDigits r.1), r.2)
    else none
  | [] => none

/-- The floating-point number with these digits before and after the point. -/
def realOf (negative : Bool) (whole fraction : List Char) (exponent : Int) : Binary64 :=
  Decimal.toBinary64 negative
    ⟨naturalOfDigits (whole ++ fraction), exponent - fraction.length⟩

/-- Digits, a point and digits, of which one part may be missing, and the rest. -/
def mantissa? (cs : List Char) : Option (List Char × List Char × List Char) :=
  match digitRun? cs with
  | some (whole, '.' :: rest) =>
    match digitRun? rest with
    | some (fraction, rest) => some (whole, fraction, rest)
    | none => some (whole, [], rest)
  | some (whole, rest) => some (whole, [], rest)
  | none =>
    match cs with
    | '.' :: rest => (digitRun? rest).map fun r => ([], r.1, r.2)
    | _ => none

/-- A numeral that stands for no finite number. -/
def word? (negative : Bool) (cs : List Char) : Option Binary64 :=
  let w := String.ofList (cs.map Char.toLower)
  if w == "inf" || w == "infinity" then some (.infinite negative)
  else if w == "nan" then some .nan
  else none

def real? (cs : List Char) : Option Binary64 :=
  let s := sign (stripChars cs)
  match mantissa? s.2 with
  | some (whole, fraction, rest) =>
    match exponent? rest with
    | some (e, []) => some (realOf s.1 whole fraction e)
    | some _ => none
    | none => if rest.isEmpty then some (realOf s.1 whole fraction 0) else none
  | none => word? s.1 s.2

/-- The floating-point number of the longest numeral without exponent at the start of a text, after
blanks. -/
def leading? (cs : List Char) : Option Binary64 :=
  let s := sign (skipBlanks cs)
  let whole := s.2.takeWhile isDecimal
  let fraction := match s.2.dropWhile isDecimal with
    | '.' :: rest => rest.takeWhile isDecimal
    | _ => []
  if whole.isEmpty && fraction.isEmpty then none else some (realOf s.1 whole fraction 0)

end NoteQuery.Numeral
