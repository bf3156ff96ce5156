import NoteQuery.Eval.Builtin
import NoteQuery.Eval.DateFunctions
import NoteQuery.Eval.NumberFunctions
import NoteQuery.Order.Sort

/-!
The library of functions. A call checks the number of its arguments, and a computation in it that
leaves its range becomes a local failure. Functions on arrays apply a function to one item after the
other; the number of the item tells the applications apart.
-/

namespace NoteQuery
set_option autoImplicit false

/-- Applies a function, given by its parameter and body, to the item of a number. -/
abbrev Applier := Nat → String → Expr → Value → Outcome Value

namespace ArrayFunction

def contains (container v : Value) : Outcome Value := do
  match container, v with
  | .array items, v => return .bool (← items.anyM fun item => liftM (item.deepEqual v))
  | .text s, .text t => return .bool (Text.occursIn t.toList s.toList)
  | .null, _ => return .bool false
  | _, .null => return .bool false
  | c, v => return .bool (Text.occursIn (← v.display).toList (← c.display).toList)

/-- The number of members of an array, an object or a text. -/
def length : Value → Value
  | .array items => .int items.length
  | .text s => .int s.length
  | .object entries => .int entries.length
  | _ => .int 0

/-- Whether one value stands before another in an order. -/
def stands (before : Ordering) (a b : Value) : Outcome Bool := do
  return (← liftM (a.compare b)) == before

/-- Sorts an array; values of which neither is less keep their order. -/
def sort (v direction : Value) : Outcome Value := do
  match v with
  | .array items =>
    let word := Text.lower (← direction.display)
    return .array (← Order.sortM (stands (if word = "desc" then .gt else .lt)) items)
  | v => return v

def reverse : Value → Value
  | .array items => .array items.reverse
  | v => v

/-- The items, numbered from `n` on, for which a test holds. -/
def keepFrom (test : Nat → Value → Outcome Bool) (n : Nat) : List Value → Outcome (List Value)
  | [] => .ok []
  | v :: vs => do
    let kept ← test n v
    let rest ← keepFrom test (n + 1) vs
    return if kept then v :: rest else rest

/-- The images of the items, numbered from `n` on. -/
def mapFrom (image : Nat → Value → Outcome Value) (n : Nat) : List Value → Outcome (List Value)
  | [] => .ok []
  | v :: vs => do
    let w ← image n v
    let ws ← mapFrom image (n + 1) vs
    return w :: ws

def filter (apply : Applier) (v test : Value) : Outcome Value :=
  match v, test with
  | .array items, .function _ x body =>
    .array <$> keepFrom (fun n item => Value.isTrue <$> apply n x body item) 0 items
  | v, _ => .ok v

def map (apply : Applier) (v image : Value) : Outcome Value :=
  match v, image with
  | .array items, .function _ x body => .array <$> mapFrom (fun n => apply n x body) 0 items
  | v, _ => .ok v

end ArrayFunction

namespace Builtin

/-- The result of a function for arguments of the right number. -/
def result (now : Moment) (apply : Applier) (b : Builtin) (args : List Value) : Outcome Value :=
  let first := args.getD 0 .null
  let second := args.getD 1 .null
  match b with
  | date => DateFunction.date now first
  | dateFormat => DateFunction.dateFormat first second
  | duration => DateFunction.duration first
  | contains => ArrayFunction.contains first second
  | length => .ok (ArrayFunction.length first)
  | join => TextFunction.join first (args.getD 1 (.text ", "))
  | list => .ok (.array args)
  | sort => ArrayFunction.sort first (args.getD 1 (.text "asc"))
  | reverse => .ok (ArrayFunction.reverse first)
  | filter => ArrayFunction.filter apply first second
  | map => ArrayFunction.map apply first second
  | lower => TextFunction.lower first
  | upper => TextFunction.upper first
  | replace => TextFunction.replace first second (args.getD 2 (.text ""))
  | split => TextFunction.split first (args.getD 1 (.text ","))
  | regexMatch => TextFunction.regexMatch first second
  | regexReplace => TextFunction.regexReplace first second (args.getD 2 (.text ""))
  | substring => TextFunction.substring first (args.getD 1 (.int 0)) (args.getD 2 .null)
  | startsWith => TextFunction.startsWith first second
  | endsWith => TextFunction.endsWith first second
  | default => .ok (if first.isNull then second else first)
  | choice => .ok (if first.isTrue then second else args.getD 2 .null)
  | round => NumberFunction.round first (args.getD 1 (.int 0))
  | min => .ok (NumberFunction.min args)
  | max => .ok (NumberFunction.max args)
  | sum => NumberFunction.sum args
  | average => NumberFunction.average args

end Builtin

/-- What becomes of a failure in a call: a result out of range is a matter of the function. -/
def Failure.inCall (name : String) : Failure → Failure
  | outOfRange cause => arithmetic (name ++ "()") cause
  | f => f

/-- Calls a function by its name. -/
def callByName (now : Moment) (apply : Applier) (name : String) (args : List Value) :
    Outcome Value :=
  match Builtin.ofName? name with
  | none => .error (.unknownFunction name)
  | some b => do
    b.signature.check name args.length
    (b.result now apply args).mapError (Failure.inCall name)

end NoteQuery
