import NoteQuery.Calendar.Moment
import NoteQuery.Expr.Basic

/-!
Values. Objects keep the order in which their entries were made. A function carries the place where
it was made, so that two functions of the same text can be told apart.
-/

namespace NoteQuery
set_option autoImplicit false

/-- Where a function comes from: it was given from outside, or made at a place of an evaluation. -/
inductive Origin where
  | given (n : Nat)
  | made (site : List Nat)
  deriving DecidableEq

inductive Value where
  | null
  | bool (b : Bool)
  | number (n : Number)
  | text (s : String)
  | date (d : Stamp)
  | array (items : List Value)
  | object (entries : List (String × Value))
  | function (origin : Origin) (parameter : String) (body : Expr)
  deriving Inhabited

inductive Kind where
  | null
  | bool
  | number
  | text
  | date
  | array
  | object
  | function
  deriving DecidableEq

namespace Kind

def name : Kind → String
  | null => "null"
  | bool => "bool"
  | number => "number"
  | text => "string"
  | date => "date"
  | array => "array"
  | object => "object"
  | function => "function"

end Kind

/-- Entries under distinct keys, in the order in which they were made. -/
abbrev Record := List (String × Value)

namespace Record

def get? (r : Record) (key : String) : Option Value := r.lookup key

/-- The value under a key; null where there is none. -/
def get (r : Record) (key : String) : Value := (r.get? key).getD .null

def has (r : Record) (key : String) : Bool := (r.get? key).isSome

def keys (r : Record) : List String := r.map (·.1)

/-- Replaces the value under a key, or adds an entry at the end. -/
def insert (r : Record) (key : String) (v : Value) : Record :=
  match r with
  | [] => [(key, v)]
  | (k, w) :: rest => if k = key then (key, v) :: rest else (k, w) :: Record.insert rest key v

/-- The record of a list of entries, of which later ones replace earlier ones. -/
def ofList (entries : List (String × Value)) : Record :=
  entries.foldl (fun r e => Record.insert r e.1 e.2) []

theorem get?_insert (r : Record) (key key' : String) (v : Value) :
    Record.get? (Record.insert r key v) key' =
      if key' = key then some v else Record.get? r key' := by
  unfold get?
  induction r with
  | nil =>
    by_cases h : key' = key
    · simp [Record.insert, h]
    · simp [Record.insert, List.lookup_cons, h, beq_eq_false_iff_ne.2 h]
  | cons e rest ih =>
    obtain ⟨k, w⟩ := e
    by_cases hk : k = key
    · subst hk
      by_cases h : key' = k
      · simp [Record.insert, h]
      · simp [Record.insert, List.lookup_cons, h, beq_eq_false_iff_ne.2 h]
    · by_cases h : key' = k
      · subst h
        simp [Record.insert, hk]
      · simp [Record.insert, List.lookup_cons, hk, beq_eq_false_iff_ne.2 h, ih]

end Record

namespace Value

def kind : Value → Kind
  | null => .null
  | bool _ => .bool
  | number _ => .number
  | text _ => .text
  | date _ => .date
  | array _ => .array
  | object _ => .object
  | function .. => .function

def ofLiteral : Literal → Value
  | .null => null
  | .bool b => bool b
  | .number n => number n
  | .text s => text s

def int (n : Int) : Value := number (.int n)

def isNull : Value → Bool
  | null => true
  | _ => false

/-- What counts as true: not null, false, zero, what is no number, an empty text or an empty
array. -/
def isTrue : Value → Bool
  | null => false
  | bool b => b
  | number n => n.isNonzero
  | text s => s != ""
  | array items => !items.isEmpty
  | _ => true

end Value
end NoteQuery
