import NoteQuery.Text.Digit

/-!
Tokens of expressions.
-/

namespace NoteQuery
set_option autoImplicit false

inductive TokenKind where
  | identifier
  | number
  | text
  | operator
  | punctuation
  | keyword
  deriving DecidableEq

/-- One lexical unit with the number of characters before it. -/
structure Token where
  kind : TokenKind
  text : String
  offset : Nat
  deriving DecidableEq

namespace TokenKind

def name : TokenKind → String
  | identifier => "identifier"
  | number => "number"
  | text => "string"
  | operator => "operator"
  | punctuation => "punctuation"
  | keyword => "keyword"

end TokenKind

namespace Token

def describe (t : Token) : String := t.kind.name ++ " '" ++ t.text ++ "'"

def isKeyword (t : Token) (word : String) : Bool := t.kind = .keyword && t.text == word

def isOperator (t : Token) (symbol : String) : Bool := t.kind = .operator && t.text == symbol

def isMark (t : Token) (symbol : String) : Bool := t.kind = .punctuation && t.text == symbol

/-- Whether a minus after this token belongs to a number: an operand may start here. -/
def opensOperand (t : Token) : Bool :=
  match t.kind with
  | .operator => true
  | .punctuation => t.text == "(" || t.text == "[" || t.text == ","
  | .keyword => t.text == "AND" || t.text == "OR" || t.text == "NOT"
  | _ => false

end Token

/-- Words that connect operands, in the spelling of their tokens. -/
def connectingWords : List String := ["AND", "OR", "NOT"]

/-- Words that are values, in the spelling of their tokens. -/
def valueWords : List String := ["true", "false", "null"]

/-- The spelling of a keyword, which may be written in any case. -/
def keyword? (word : List Char) : Option String :=
  let up := String.ofList (word.map Char.toUpper)
  let low := String.ofList (word.map Char.toLower)
  if connectingWords.contains up then some up
  else if valueWords.contains low then some low
  else none

end NoteQuery
