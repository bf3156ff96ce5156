import NoteQuery.Number.Basic

/-!
Expressions. A tree says nothing about how it was written: parentheses, a prefix plus and the choice
between two spellings of an operator leave no trace.
-/

namespace NoteQuery
set_option autoImplicit false

inductive Literal where
  | null
  | bool (b : Bool)
  | number (n : Number)
  | text (s : String)
  deriving DecidableEq, Inhabited

inductive Comparison where
  | eq
  | ne
  | lt
  | gt
  | le
  | ge
  deriving DecidableEq

inductive Arithmetic where
  | add
  | sub
  | mul
  | div
  | rem
  deriving DecidableEq

inductive Connective where
  | and
  | or
  deriving DecidableEq

/-- An operator between two operands that are both evaluated. -/
inductive BinaryOp where
  | compare (op : Comparison)
  | compute (op : Arithmetic)
  deriving DecidableEq

inductive UnaryOp where
  | not
  | negate
  deriving DecidableEq

inductive Expr where
  | literal (value : Literal)
  | name (name : String)
  /-- `base.name` or `base[literal]` -/
  | property (base : Expr) (key : Literal)
  | index (base key : Expr)
  | binary (op : BinaryOp) (left right : Expr)
  | connect (op : Connective) (left right : Expr)
  | unary (op : UnaryOp) (operand : Expr)
  | call (function : String) (arguments : List Expr)
  | lambda (parameter : String) (body : Expr)
  deriving Inhabited

namespace Comparison

def symbol : Comparison → String
  | eq => "="
  | ne => "!="
  | lt => "<"
  | gt => ">"
  | le => "<="
  | ge => ">="

def ofSymbol? : String → Option Comparison
  | "=" => some eq
  | "==" => some eq
  | "!=" => some ne
  | "<" => some lt
  | ">" => some gt
  | "<=" => some le
  | ">=" => some ge
  | _ => none

theorem ofSymbol?_symbol (c : Comparison) : ofSymbol? c.symbol = some c := by cases c <;> rfl

end Comparison

namespace Arithmetic

def symbol : Arithmetic → String
  | add => "+"
  | sub => "-"
  | mul => "*"
  | div => "/"
  | rem => "%"

def ofSymbol? : String → Option Arithmetic
  | "+" => some add
  | "-" => some sub
  | "*" => some mul
  | "/" => some div
  | "%" => some rem
  | _ => none

theorem ofSymbol?_symbol (a : Arithmetic) : ofSymbol? a.symbol = some a := by cases a <;> rfl

end Arithmetic

namespace BinaryOp

def symbol : BinaryOp → String
  | compare op => op.symbol
  | compute op => op.symbol

end BinaryOp

namespace Connective

def symbol : Connective → String
  | and => "AND"
  | or => "OR"

end Connective

namespace UnaryOp

def symbol : UnaryOp → String
  | not => "NOT"
  | negate => "-"

end UnaryOp

namespace Literal

/-- The number a literal counts as; true is one and false is zero. -/
def number? : Literal → Option Number
  | bool b => some (.int (if b then 1 else 0))
  | number n => some n
  | _ => none

/-- Equality of literals by value. -/
def same (a b : Literal) : Bool :=
  match a.number?, b.number? with
  | some m, some n => m.eq n
  | none, none => a = b
  | _, _ => false

end Literal

namespace Expr

mutual

/-- Equality of trees, literals compared by value. -/
def same : Expr → Expr → Bool
  | literal a, literal b => a.same b
  | name a, name b => a == b
  | property a k, property b l => a.same b && k.same l
  | index a k, index b l => a.same b && k.same l
  | binary o a b, binary p c d => o == p && a.same c && b.same d
  | connect o a b, connect p c d => o == p && a.same c && b.same d
  | unary o a, unary p b => o == p && a.same b
  | call f as, call g bs => f == g && sameAll as bs
  | lambda x a, lambda y b => x == y && a.same b
  | _, _ => false

def sameAll : List Expr → List Expr → Bool
  | [], [] => true
  | a :: as, b :: bs => a.same b && sameAll as bs
  | _, _ => false

end

end Expr
end NoteQuery
