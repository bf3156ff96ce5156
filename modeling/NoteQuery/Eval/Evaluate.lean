import NoteQuery.Eval.Context
import NoteQuery.Eval.Library
import NoteQuery.Eval.Operator

/-!
Evaluation of expressions. It is structural except where a function is applied, and applications may
be nested only so deep. Every point of an evaluation has a site, the path that leads to it, and
functions made at different sites are different functions.
-/

namespace NoteQuery
set_option autoImplicit false

/-- How a function, given by parameter and body, is applied at a site in a context. -/
abbrev Application := List Nat → Context → String → Expr → Value → Outcome Value

mutual

/-- The value of an expression, where `apply` tells how functions are applied. -/
def Expr.evaluateWith (now : Moment) (apply : Application) (site : List Nat) (c : Context) :
    Expr → Outcome Value
  | .literal v => .ok (.ofLiteral v)
  | .name n => .ok (c.resolve n)
  | .property base key => do
    let b ← base.evaluateWith now apply (0 :: site) c
    b.member (.ofLiteral key)
  | .index base key => do
    let b ← base.evaluateWith now apply (0 :: site) c
    let k ← key.evaluateWith now apply (1 :: site) c
    b.member k
  | .binary op left right => do
    let a ← left.evaluateWith now apply (0 :: site) c
    let b ← right.evaluateWith now apply (1 :: site) c
    op.apply a b
  | .connect op left right => do
    let a ← left.evaluateWith now apply (0 :: site) c
    match op, a.isTrue with
    | .and, false => return .bool false
    | .or, true => return .bool true
    | _, _ => do
      let b ← right.evaluateWith now apply (1 :: site) c
      return .bool b.isTrue
  | .unary op operand => do
    let a ← operand.evaluateWith now apply (0 :: site) c
    op.apply a
  | .call function args => do
    let vs ← Expr.evaluateAllWith now apply site c 0 args
    callByName now (fun n => apply ((args.length + n) :: site) c) function vs
  | .lambda x body => .ok (.function (.made site) x body)

/-- The values of expressions that are numbered from `n` on. -/
def Expr.evaluateAllWith (now : Moment) (apply : Application) (site : List Nat) (c : Context)
    (n : Nat) : List Expr → Outcome (List Value)
  | [] => .ok []
  | e :: es => do
    let v ← e.evaluateWith now apply (n :: site) c
    let vs ← Expr.evaluateAllWith now apply site c (n + 1) es
    return v :: vs

end

/-- Applies functions in one another up to a depth. -/
def applyUpTo (now : Moment) : Nat → Application
  | 0 => fun _ _ _ _ _ => .error .tooDeep
  | depth + 1 => fun site c x body v =>
    body.evaluateWith now (applyUpTo now depth) site (c.bind x v)

/-- How deep applications may be nested. -/
def deepest : Nat := 1000

namespace Expr

/-- The value of an expression in a context. -/
def evaluate (now : Moment) (c : Context) (e : Expr) : Outcome Value :=
  e.evaluateWith now (applyUpTo now deepest) [] c

end Expr

/-- Calls a function by its name in a context. -/
def Context.call (now : Moment) (c : Context) (name : String) (args : List Value) : Outcome Value :=
  callByName now (fun n => applyUpTo now deepest [n] c) name args

end NoteQuery
