import NoteQuery.Value.Compare
import NoteQuery.Eval.Failure

/-!
Operators on values. Comparisons hold or not whatever the values are; arithmetic is for numbers only.
-/

namespace NoteQuery
set_option autoImplicit false

def Value.asOperand (symbol : String) : Value → Outcome Number
  | .number n => .ok n
  | v => .error (.notNumeric symbol v.kind)

namespace Comparison

def holds (c : Comparison) (a b : Value) : Except RangeError Bool := do
  match c with
  | eq => a.equal b
  | ne => return !(← a.equal b)
  | lt => a.less b
  | gt => b.less a
  | le => if ← a.equal b then return true else a.less b
  | ge => if ← a.equal b then return true else b.less a

end Comparison

namespace Arithmetic

/-- The result for two numbers; a zero on the right is refused where it divides. -/
def result (op : Arithmetic) (a b : Number) : Outcome Number :=
  let inRange : Except RangeError Number → Outcome Number :=
    Except.mapError (.arithmetic op.symbol)
  match op with
  | add => inRange (a.add b)
  | sub => inRange (a.sub b)
  | mul => inRange (a.mul b)
  | div => if b.isZero then .error .divisionByZero else inRange (a.div b)
  | rem => if b.isZero then .error .remainderByZero else inRange (a.rem b)

def apply (op : Arithmetic) (a b : Value) : Outcome Value := do
  let m ← a.asOperand op.symbol
  let n ← b.asOperand op.symbol
  return .number (← op.result m n)

/-- Where arithmetic fails, the failure is a local one. -/
theorem isLocal_of_result {op : Arithmetic} {a b : Number} {f : Failure}
    (h : op.result a b = .error f) : f.isLocal = true := by
  have inRange : ∀ r : Except RangeError Number,
      r.mapError (Failure.arithmetic op.symbol) = .error f → f.isLocal = true := by
    intro r hr
    cases r with
    | ok n => cases hr
    | error c => cases hr; rfl
  cases op
  case add => exact inRange _ h
  case sub => exact inRange _ h
  case mul => exact inRange _ h
  case div =>
    simp only [result] at h
    split at h
    · cases h; rfl
    · exact inRange _ h
  case rem =>
    simp only [result] at h
    split at h
    · cases h; rfl
    · exact inRange _ h

end Arithmetic

def BinaryOp.apply (op : BinaryOp) (a b : Value) : Outcome Value := do
  match op with
  | .compare c => return .bool (← c.holds a b)
  | .compute c => c.apply a b

def UnaryOp.apply (op : UnaryOp) (a : Value) : Outcome Value := do
  match op with
  | .not => return .bool !a.isTrue
  | .negate => return .number (← a.asOperand op.symbol).neg

end NoteQuery
