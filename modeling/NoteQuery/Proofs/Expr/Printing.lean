import NoteQuery.Proofs.Expr.Lexing

/-! Expressions written out. Each part of an expression stands in parentheses, so that no strength of an
operator matters; around an argument, an index and the body of a function they may be left out, since
what is next to these ends them anyway. -/

namespace NoteQuery
set_option autoImplicit false

namespace Literal

def chars : Literal → List Char
  | null => ['n', 'u', 'l', 'l']
  | bool true => ['t', 'r', 'u', 'e']
  | bool false => ['f', 'a', 'l', 's', 'e']
  | number n => n.exactText.toList
  | text s => '"' :: s.toList.flatMap escaped ++ ['"']

/-- A number with a point may be shown in a notation that is not read. -/
def writable : Literal → Bool
  | number (.real _) => false
  | _ => true

end Literal

namespace Expr

def isLiteral : Expr → Bool
  | literal _ => true
  | _ => false

/-- In parentheses. -/
def grouped (cs : List Char) : List Char := '(' :: (cs ++ [')'])

/-- In parentheses or not, where both read the same. -/
def enclosed (wrap : Bool) (cs : List Char) : List Char := if wrap then grouped cs else cs

/-- Two groups with an operator between them. -/
def infixed (symbol left right : List Char) : List Char :=
  grouped left ++ ' ' :: (symbol ++ ' ' :: grouped right)

mutual

def chars (wrap : Bool) : Expr → List Char
  | literal v => v.chars
  | name x => x.toList
  | property base key => grouped (base.chars wrap) ++ '[' :: (key.chars ++ [']'])
  | index base key => grouped (base.chars wrap) ++ '[' :: (enclosed wrap (key.chars wrap) ++ [']'])
  | binary op left right => infixed op.symbol.toList (left.chars wrap) (right.chars wrap)
  | connect op left right => infixed op.symbol.toList (left.chars wrap) (right.chars wrap)
  | unary op operand => op.symbol.toList ++ ' ' :: grouped (operand.chars wrap)
  | call function arguments => function.toList ++ '(' :: (argumentsChars wrap arguments ++ [')'])
  | lambda parameter body =>
    '(' :: (parameter.toList ++ ')' :: ' ' :: '=' :: '>' :: ' ' :: enclosed wrap (body.chars wrap))

def argumentsChars (wrap : Bool) : List Expr → List Char
  | [] => []
  | [e] => enclosed wrap (e.chars wrap)
  | e :: f :: es => enclosed wrap (e.chars wrap) ++ ',' :: ' ' :: argumentsChars wrap (f :: es)

end

/-- An expression as a text. -/
def shown (wrap : Bool) (e : Expr) : String := String.ofList (e.chars wrap)

mutual

/-- The names are words and no keywords, the numbers are integers, and an index that is a literal
stands as a fixed key. -/
def writable : Expr → Bool
  | literal v => v.writable
  | name x => isPlainName x
  | property base key => base.writable && key.writable
  | index base key => base.writable && key.writable && !key.isLiteral
  | binary _ left right => left.writable && right.writable
  | connect _ left right => left.writable && right.writable
  | unary _ operand => operand.writable
  | call function arguments => isPlainName function && allWritable arguments
  | lambda parameter body => isPlainName parameter && body.writable

def allWritable : List Expr → Bool
  | [] => true
  | e :: es => e.writable && allWritable es

end

end Expr
end NoteQuery
