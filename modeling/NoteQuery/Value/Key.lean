import NoteQuery.Value.Basic

/-!
Keys of values: two values have matching keys when they belong into one group. Object entries are
put in the order of their names, so the order in which they were made does not count.
-/

namespace NoteQuery
set_option autoImplicit false

inductive Key where
  | null
  | bool (b : Bool)
  | number (n : Number)
  | text (s : String)
  | date (m : Moment)
  | array (items : List Key)
  | object (entries : List (String × Key))
  | function (origin : Origin)

namespace Key

mutual

/-- Whether two keys are the same, numbers compared by value. -/
def agree : Key → Key → Bool
  | null, null => true
  | bool a, bool b => a == b
  | number a, number b => a.eq b
  | text a, text b => a == b
  | date a, date b => decide (a = b)
  | array as, array bs => agreeAll as bs
  | object as, object bs => agreeEntries as bs
  | function a, function b => a == b
  | _, _ => false

def agreeAll : List Key → List Key → Bool
  | [], [] => true
  | a :: as, b :: bs => agree a b && agreeAll as bs
  | _, _ => false

def agreeEntries : List (String × Key) → List (String × Key) → Bool
  | [], [] => true
  | (k, a) :: as, (l, b) :: bs => k == l && agree a b && agreeEntries as bs
  | _, _ => false

end

/-- Puts an entry before the first one with a greater name. -/
def insertEntry (e : String × Key) : List (String × Key) → List (String × Key)
  | [] => [e]
  | f :: fs => if f.1 < e.1 then f :: insertEntry e fs else e :: f :: fs

def sortEntries (es : List (String × Key)) : List (String × Key) := es.foldr insertEntry []

end Key

namespace Value

mutual

def key : Value → Except RangeError Key
  | null => .ok .null
  | bool b => .ok (.bool b)
  | number n => .ok (.number n)
  | text s => .ok (.text s)
  | date d => .date <$> d.moment
  | array items => .array <$> itemKeys items
  | object entries => do return .object (Key.sortEntries (← entryKeys entries))
  | function origin _ _ => .ok (.function origin)

def itemKeys : List Value → Except RangeError (List Key)
  | [] => .ok []
  | v :: vs => do
    let k ← key v
    let ks ← itemKeys vs
    return k :: ks

def entryKeys : List (String × Value) → Except RangeError (List (String × Key))
  | [] => .ok []
  | (n, v) :: es => do
    let k ← key v
    let ks ← entryKeys es
    return (n, k) :: ks

end

end Value
end NoteQuery
