import NoteQuery.Json.Basic
import NoteQuery.Number.Numeral

/-!
Reading interchange data. Of two members with one name the later one counts. Infinities and what is
no number may be written as words.
-/

namespace NoteQuery.Json
set_option autoImplicit false

def isGap (c : Char) : Bool := c == ' ' || c == '\t' || c == '\n' || c == '\r'

def skipGaps (cs : List Char) : List Char := cs.dropWhile isGap

def hexValue? (c : Char) : Option Nat :=
  if '0' ≤ c ∧ c ≤ '9' then some (c.toNat - 48)
  else if 'a' ≤ c ∧ c ≤ 'f' then some (c.toNat - 87)
  else if 'A' ≤ c ∧ c ≤ 'F' then some (c.toNat - 55)
  else none

/-- Four hexadecimal digits. -/
def unit? : List Char → Option (Nat × List Char)
  | a :: b :: c :: d :: rest => do
    let a ← hexValue? a
    let b ← hexValue? b
    let c ← hexValue? c
    let d ← hexValue? d
    return (((a * 16 + b) * 16 + c) * 16 + d, rest)
  | _ => none

def isHighUnit (n : Nat) : Bool := 0xd800 ≤ n && n < 0xdc00

def isLowUnit (n : Nat) : Bool := 0xdc00 ≤ n && n < 0xe000

/-- The character of a unit, or of two units that belong together. A lone half of a pair has no
character and is read as the replacement character. -/
def escaped? (cs : List Char) : Option (Char × List Char) := do
  let (n, rest) ← unit? cs
  if isHighUnit n then
    match rest with
    | '\\' :: 'u' :: more =>
      match unit? more with
      | some (k, rest') =>
        if isLowUnit k then
          return (Char.ofNat (0x10000 + (n - 0xd800) * 0x400 + (k - 0xdc00)), rest')
        else return ('\ufffd', rest)
      | none => none
    | _ => return ('\ufffd', rest)
  else if isLowUnit n then return ('\ufffd', rest)
  else return (Char.ofNat n, rest)

def simpleEscape? : Char → Option Char
  | '"' => some '"'
  | '\\' => some '\\'
  | '/' => some '/'
  | 'b' => some '\x08'
  | 'f' => some '\x0c'
  | 'n' => some '\n'
  | 'r' => some '\r'
  | 't' => some '\t'
  | _ => none

/-- The rest of a text after its opening quote; at most `fuel` characters are read. -/
def text? : Nat → List Char → List Char → Option (String × List Char)
  | 0, _, _ => none
  | fuel + 1, out, cs =>
    match cs with
    | [] => none
    | '"' :: rest => some (String.ofList out.reverse, rest)
    | '\\' :: 'u' :: rest => do
      let (c, rest) ← escaped? rest
      text? fuel (c :: out) rest
    | '\\' :: c :: rest => do
      let d ← simpleEscape? c
      text? fuel (d :: out) rest
    | c :: rest => if c == '\\' || c.toNat < 32 then none else text? fuel (c :: out) rest

/-- The digits after a point, if there are any, and the rest. -/
def fraction (cs : List Char) : List Char × List Char :=
  match cs with
  | '.' :: rest =>
    let ds := rest.takeWhile Char.isDigit
    if ds.isEmpty then ([], cs) else (ds, rest.drop ds.length)
  | _ => ([], cs)

/-- The exponent, if one stands there, and the rest. -/
def exponent (cs : List Char) : Option Int × List Char :=
  match cs with
  | c :: rest =>
    let s := Numeral.sign rest
    let ds := s.2.takeWhile Char.isDigit
    if (c == 'e' || c == 'E') && !ds.isEmpty then
      (some (Numeral.signed s.1 (Text.naturalOfDigits ds)), s.2.drop ds.length)
    else (none, cs)
  | [] => (none, cs)

/-- A numeral without its sign: no zeros in front, digits on both sides of a point. -/
def unsigned? (negative : Bool) (cs : List Char) : Option (Number × List Char) :=
  let whole := cs.takeWhile Char.isDigit
  let f := fraction (cs.dropWhile Char.isDigit)
  let e := exponent f.2
  if whole.isEmpty ∨ (whole.head? = some '0' ∧ whole.length ≠ 1) then none
  else if f.1.isEmpty ∧ e.1.isNone then
    some (.int (Numeral.signed negative (Text.naturalOfDigits whole)), e.2)
  else some (.real (Numeral.realOf negative whole f.1 (e.1.getD 0)), e.2)

def number? : List Char → Option (Number × List Char)
  | '-' :: cs => unsigned? true cs
  | cs => unsigned? false cs

def word? (word : String) (value : Json) (cs : List Char) : Option (Json × List Char) :=
  if cs.take word.length = word.toList then some (value, cs.drop word.length) else none

/-- The words that the standard knows. -/
def standardWords : List (String × Json) :=
  [("null", null), ("true", bool true), ("false", bool false)]

/-- These and words for what is no finite number. -/
def lenientWords : List (String × Json) :=
  standardWords ++ [("NaN", number (.real .nan)), ("Infinity", number (.real (.infinite false))),
    ("-Infinity", number (.real (.infinite true)))]

/-- A value that holds no others and is no text. -/
def scalar? (cs : List Char) : Option (Json × List Char) :=
  (lenientWords.findSome? fun w => word? w.1 w.2 cs).or
    ((number? cs).map fun r => (number r.1, r.2))

/-- The entries with their names, of which later ones replace earlier ones. -/
def insertMember (ms : List (String × Json)) (k : String) (j : Json) : List (String × Json) :=
  match ms with
  | [] => [(k, j)]
  | (l, i) :: rest => if l = k then (k, j) :: rest else (l, i) :: insertMember rest k j

mutual

/-- The value that starts here, nested at most `fuel` deep. -/
def value? : Nat → List Char → Option (Json × List Char)
  | 0, _ => none
  | fuel + 1, cs =>
    match cs with
    | '"' :: rest => (text? (rest.length + 1) [] rest).map fun r => (text r.1, r.2)
    | '[' :: rest =>
      match skipGaps rest with
      | ']' :: rest => some (array [], rest)
      | rest => items? fuel [] rest
    | '\x7b' :: rest =>
      match skipGaps rest with
      | '\x7d' :: rest => some (object [], rest)
      | rest => members? fuel [] rest
    | cs => scalar? cs

def items? : Nat → List Json → List Char → Option (Json × List Char)
  | 0, _, _ => none
  | fuel + 1, out, cs => do
    let (j, rest) ← value? fuel cs
    match skipGaps rest with
    | ',' :: rest => items? fuel (j :: out) (skipGaps rest)
    | ']' :: rest => some (array (j :: out).reverse, rest)
    | _ => none

def members? : Nat → List (String × Json) → List Char → Option (Json × List Char)
  | 0, _, _ => none
  | fuel + 1, out, cs =>
    match cs with
    | '"' :: rest => do
      let (k, rest) ← text? (rest.length + 1) [] rest
      match skipGaps rest with
      | ':' :: rest =>
        let (j, rest) ← value? fuel (skipGaps rest)
        let out := insertMember out k j
        match skipGaps rest with
        | ',' :: rest => members? fuel out (skipGaps rest)
        | '\x7d' :: rest => some (object out, rest)
        | _ => none
      | _ => none
    | _ => none

end

/-- The value that a text denotes. -/
def read? (cs : List Char) : Option Json :=
  match value? (2 * cs.length + 2) (skipGaps cs) with
  | some (j, rest) => if (skipGaps rest).isEmpty then some j else none
  | none => none

end NoteQuery.Json
