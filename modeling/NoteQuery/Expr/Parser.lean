import NoteQuery.Expr.Basic
import NoteQuery.Expr.Lexer
import NoteQuery.Number.Numeral
import NoteQuery.Text.Quoted

/-!
From tokens to expressions. From the weakest to the strongest: OR, AND, one comparison, sums,
products, prefix operators, members, operands. Alternatives are tried in order and repetitions take
as much as they can. Whatever the outcome, a parser also tells what it missed at the furthest point
it reached, and errors are reported there.
-/

namespace NoteQuery
set_option autoImplicit false

/-- What a parser looks for at one point. -/
inductive Expectation where
  | kind (k : TokenKind)
  | oneOf (symbols : List String)
  | theEnd
  deriving DecidableEq

namespace Expectation

def describe : Expectation → String
  | kind k => k.name
  | oneOf symbols => " or ".intercalate (symbols.map fun s => "'" ++ s ++ "'")
  | theEnd => "end of expression"

end Expectation

/-- What was looked for in vain at the furthest point, which is told by the number of tokens left
there. -/
structure Misses where
  left : Nat
  expected : List Expectation

namespace Misses

def none : Misses := ⟨0, []⟩

/-- Misses further on count; those at the same point count together. -/
def join (a b : Misses) : Misses :=
  if b.expected.isEmpty then a
  else if a.expected.isEmpty then b
  else if a.left < b.left then a
  else if b.left < a.left then b
  else ⟨a.left, a.expected ++ b.expected.filter fun e => !a.expected.contains e⟩

end Misses

/-- The outcome of a parser: a result with the tokens left, or none, and the misses on the way. -/
structure Parsed (α : Type) where
  result : Option (α × List Token)
  misses : Misses

/-- A parser of a list of tokens. -/
def Parser (α : Type) : Type := List Token → Parsed α

namespace Parser

variable {α β : Type}

def succeed (a : α) : Parser α := fun ts => ⟨some (a, ts), .none⟩

def fail : Parser α := fun _ => ⟨none, .none⟩

def andThen (p : Parser α) (f : α → Parser β) : Parser β := fun ts =>
  let r := p ts
  match r.result with
  | none => ⟨none, r.misses⟩
  | some (a, rest) =>
    let s := f a rest
    ⟨s.result, s.misses.join r.misses⟩

instance : Monad Parser where
  pure := succeed
  bind := andThen

/-- The second parser is tried where the first one fails. -/
def orElse (p q : Parser α) : Parser α := fun ts =>
  let r := p ts
  match r.result with
  | some _ => r
  | none =>
    let s := q ts
    ⟨s.result, s.misses.join r.misses⟩

def firstOf : List (Parser α) → Parser α
  | [] => fail
  | [p] => p
  | p :: q :: ps => orElse p (firstOf (q :: ps))

/-- One token that passes a test. -/
def token (expectation : Expectation) (test : Token → Bool) : Parser Token
  | [] => ⟨none, ⟨0, [expectation]⟩⟩
  | t :: ts =>
    if test t then ⟨some (t, ts), .none⟩ else ⟨none, ⟨ts.length + 1, [expectation]⟩⟩

def ofKind (k : TokenKind) : Parser Token := token (.kind k) fun t => t.kind = k

def operator (symbols : List String) : Parser Token :=
  token (.oneOf symbols) fun t => t.kind = .operator && symbols.contains t.text

def keyword (word : String) : Parser Token := token (.oneOf [word]) fun t => t.isKeyword word

def mark (symbol : String) : Parser Token := token (.oneOf [symbol]) fun t => t.isMark symbol

def theEnd : Parser Unit
  | [] => ⟨some ((), []), .none⟩
  | t :: ts => ⟨none, ⟨(t :: ts).length, [.theEnd]⟩⟩

/-- As many as there are, as long as each takes a token. -/
def many (p : Parser α) (ts : List Token) : Parsed (List α) :=
  let r := p ts
  match r.result with
  | none => ⟨some ([], ts), r.misses⟩
  | some (a, rest) =>
    if _h : rest.length < ts.length then
      let s := many p rest
      ⟨s.result.map fun x => (a :: x.1, x.2), s.misses.join r.misses⟩
    else ⟨some ([a], rest), r.misses⟩
termination_by ts.length

def optional (p : Parser α) : Parser (Option α) := orElse (some <$> p) (succeed none)

/-- Any number of items with a separator between them. -/
def separated (separator : Parser β) (item : Parser α) : Parser (List α) :=
  orElse
    (do
      let first ← item
      let rest ← many (do
        let _ ← separator
        item)
      return first :: rest)
    (succeed [])

end Parser

namespace Expr
open NoteQuery.Parser

/-- The number that a numeral token denotes. -/
def numeral? (text : String) : Option Number :=
  if text.toList.contains '.' then (Numeral.real? text.toList).map .real
  else (Numeral.integer? text.toList).map .int

def identifier : Parser Token := ofKind .identifier

def literalParser : Parser Literal :=
  firstOf [
    do return .text (← ofKind .text).text,
    do return .number ((numeral? (← ofKind .number).text).getD (.int 0)),
    do let _ ← keyword "true"; return .bool true,
    do let _ ← keyword "false"; return .bool false,
    do let _ ← keyword "null"; return .null ]

/-- Something between parentheses or brackets. -/
def between {α : Type} (opening closing : String) (p : Parser α) : Parser α := do
  let _ ← mark opening
  let a ← p
  let _ ← mark closing
  return a

/-- `(x) => body` or `x => body` -/
def lambdaParser (expr : Parser Expr) : Parser Expr := do
  let parameter ← orElse (between "(" ")" identifier) identifier
  let _ ← operator ["=>"]
  return lambda parameter.text (← expr)

def callParser (expr : Parser Expr) : Parser Expr := do
  let function ← identifier
  return call function.text (← between "(" ")" (separated (mark ",") expr))

def primary (expr : Parser Expr) : Parser Expr :=
  firstOf [
    lambdaParser expr,
    between "(" ")" expr,
    literal <$> literalParser,
    callParser expr,
    do return name (← identifier).text ]

/-- A member access: a name after a point, or an index in brackets. -/
inductive Member where
  | named (key : String)
  | indexed (key : Expr)

/-- Takes a member of an expression; an index that is a literal is a fixed key. -/
def Member.of (base : Expr) : Member → Expr
  | named key => property base (.text key)
  | indexed (literal key) => property base key
  | indexed key => index base key

def member (expr : Parser Expr) : Parser Member :=
  firstOf [
    do
      let _ ← mark "."
      return .named (← identifier).text,
    do return .indexed (← between "[" "]" expr) ]

def postfixed (expr : Parser Expr) : Parser Expr := do
  let base ← primary expr
  let members ← many (member expr)
  return members.foldl Member.of base

/-- Operands joined by operators, grouped from the left. -/
def chain (operand : Parser Expr) (op : Parser (Expr → Expr → Expr)) : Parser Expr := do
  let first ← operand
  let rest ← many (do
    let f ← op
    return (f, ← operand))
  return rest.foldl (fun left r => r.1 left r.2) first

def arithmetic (symbols : List String) : Parser (Expr → Expr → Expr) := do
  let t ← operator symbols
  return binary (.compute ((Arithmetic.ofSymbol? t.text).getD .add))

def connective (op : Connective) (word symbol : String) : Parser (Expr → Expr → Expr) := do
  let _ ← orElse (keyword word) (operator [symbol])
  return connect op

def comparisonSymbols : List String := ["=", "==", "!=", "<", ">", "<=", ">="]

def products (operand : Parser Expr) : Parser Expr := chain operand (arithmetic ["*", "/", "%"])

def sums (operand : Parser Expr) : Parser Expr := chain (products operand) (arithmetic ["+", "-"])

/-- One comparison at most. -/
def comparison (operand : Parser Expr) : Parser Expr := do
  let left ← sums operand
  let rest ← optional (do
    let t ← operator comparisonSymbols
    return (t, ← sums operand))
  match rest with
  | none => return left
  | some (t, right) =>
    return binary (.compare ((Comparison.ofSymbol? t.text).getD .eq)) left right

def conjunctions (operand : Parser Expr) : Parser Expr :=
  chain (comparison operand) (connective .and "AND" "&&")

def disjunctions (operand : Parser Expr) : Parser Expr :=
  chain (conjunctions operand) (connective .or "OR" "||")

/-- An operand with its prefix operators, nested at most `fuel` deep. -/
def prefixed : Nat → Parser Expr
  | 0 => fail
  | fuel + 1 =>
    firstOf [
      do
        let _ ← orElse (keyword "NOT") (operator ["!"])
        return unary .not (← prefixed fuel),
      do
        let _ ← operator ["-"]
        return unary .negate (← prefixed fuel),
      do
        let _ ← operator ["+"]
        prefixed fuel,
      postfixed (disjunctions (prefixed fuel)) ]

/-- A whole list of tokens as one expression. Each level of nesting takes a token. -/
def whole (ts : List Token) : Parsed Expr :=
  (do
    let e ← disjunctions (prefixed (ts.length + 1))
    theEnd
    return e : Parser Expr) ts

end Expr

/-- Why a text is no expression. -/
inductive SyntaxFault where
  | unclosedText (fault : UnclosedText)
  /-- The token, or none at the end, with what was expected there. -/
  | unexpected (text : String) (token : Option Token) (expected : List String)
  | badNumeral (text : String)
  deriving DecidableEq

namespace SyntaxFault

/-- The expectations in order, each once. -/
def orderedNames (es : List Expectation) : List String :=
  (es.map Expectation.describe).foldr insertName []
where
  insertName (s : String) : List String → List String
    | [] => [s]
    | t :: ts => if s < t then s :: t :: ts else if s = t then t :: ts else t :: insertName s ts

def message : SyntaxFault → String
  | unclosedText f => "Unterminated string literal at offset " ++ toString f.offset
  | unexpected text token expected =>
    let names := ", ".intercalate expected
    let fault := match token with
      | none => "Unexpected end of input, expected " ++ names
      | some t => "Unexpected token " ++ t.describe ++ ", expected " ++ names
    let column := match token with
      | none => text.length
      | some t => t.offset
    "Invalid expression syntax: " ++ fault ++ "\n\n" ++ text ++ "\n" ++
      String.ofList (List.replicate column ' ') ++ "^"
  | badNumeral text =>
    if text.toList.contains '.' then
      "could not convert string to float: " ++ Text.quoted text
    else "invalid literal for int() with base 10: " ++ Text.quoted text

/-- What was expected, as far as it is known. -/
def expected? : SyntaxFault → Option String
  | unclosedText f => some ("closing " ++ String.ofList [f.quote])
  | unexpected _ _ expected => some (", ".intercalate expected)
  | badNumeral _ => none

def token? : SyntaxFault → Option Token
  | unexpected _ token _ => token
  | _ => none

end SyntaxFault

namespace Expr

/-- The first number token that is no numeral. -/
def badNumeral? (ts : List Token) : Option String :=
  (ts.find? fun t => t.kind = .number && (numeral? t.text).isNone).map (·.text)

/-- The expression that a list of tokens denotes; `text` is shown in errors. -/
def ofTokens (ts : List Token) (text : String) : Except SyntaxFault Expr :=
  let r := whole ts
  match r.result with
  | some (e, _) =>
    match badNumeral? ts with
    | some n => .error (.badNumeral n)
    | none => .ok e
  | none =>
    let i := ts.length - r.misses.left
    match badNumeral? (ts.take i) with
    | some n => .error (.badNumeral n)
    | none => .error (.unexpected text ts[i]? (SyntaxFault.orderedNames r.misses.expected))

def parse (text : String) : Except SyntaxFault Expr :=
  match tokenize text with
  | .error f => .error (.unclosedText f)
  | .ok ts => ofTokens ts text

end Expr
end NoteQuery
