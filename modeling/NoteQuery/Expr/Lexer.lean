import NoteQuery.Expr.Token
import NoteQuery.Text.Blank

/-!
From text to tokens. Blanks and characters that start no token are passed over. A minus belongs to
the number after it where an operand may start.
-/

namespace NoteQuery
set_option autoImplicit false
open NoteQuery.Text

/-- A quoted text that is not closed. -/
structure UnclosedText where
  offset : Nat
  quote : Char
  deriving DecidableEq

/-- What starts at a character: a token, if any, and how many further characters belong to it. -/
structure Lexeme where
  token : Option (TokenKind × String)
  extra : Nat

namespace Lexeme

def isWordStart (c : Char) : Bool := c.isAlpha || c == '_'

def isWordPart (c : Char) : Bool := c.isAlphanum || c == '_'

/-- The text up to the closing quote with its escapes resolved, and how many characters it takes with
the quote. A backslash escapes any character. -/
def quotedBody? (quote : Char) : List Char → Option (List Char × Nat)
  | [] => none
  | '\\' :: c :: cs => (quotedBody? quote cs).map fun r => (c :: r.1, r.2 + 2)
  | c :: cs =>
    if c = quote then some ([], 1)
    else if c = '\\' then none
    else (quotedBody? quote cs).map fun r => (c :: r.1, r.2 + 1)

/-- How many characters continue a number whose first digit has been read. -/
def numberExtra (cs : List Char) : Nat :=
  let whole := (cs.takeWhile isDecimal).length
  match cs.drop whole with
  | '.' :: rest =>
    let fraction := (rest.takeWhile isDecimal).length
    if fraction = 0 then whole else whole + 1 + fraction
  | _ => whole

def doubleOperators : List String := ["==", "!=", "<=", ">=", "&&", "||", "=>"]

def singleOperators : List Char := ['<', '>', '=', '!', '+', '-', '*', '/', '%']

def marks : List Char := ['(', ')', '[', ']', '.', ',']

/-- The first characters of a text. -/
def leading (c : Char) (cs : List Char) (extra : Nat) : String := String.ofList (c :: cs.take extra)

def word (c : Char) (cs : List Char) : Lexeme :=
  let extra := (cs.takeWhile isWordPart).length
  match keyword? (c :: cs.take extra) with
  | some k => ⟨some (.keyword, k), extra⟩
  | none => ⟨some (.identifier, leading c cs extra), extra⟩

def operatorOrMark (c : Char) (cs : List Char) : Lexeme :=
  if doubleOperators.contains (leading c cs 1) then ⟨some (.operator, leading c cs 1), 1⟩
  else if singleOperators.contains c then ⟨some (.operator, leading c cs 0), 0⟩
  else if marks.contains c then ⟨some (.punctuation, leading c cs 0), 0⟩
  else ⟨none, 0⟩

/-- The lexeme that starts at a character that is no quote. -/
def ofChars (operandMayStart : Bool) (c : Char) (cs : List Char) : Lexeme :=
  if c = '-' ∧ operandMayStart ∧ (cs.head?.map isDecimal).getD false then
    let extra := 1 + numberExtra (cs.drop 1)
    ⟨some (.number, leading c cs extra), extra⟩
  else if isDecimal c then
    let extra := numberExtra cs
    ⟨some (.number, leading c cs extra), extra⟩
  else if isWordStart c then word c cs
  else operatorOrMark c cs

end Lexeme

/-- The tokens of a text that starts after `offset` characters and the token `previous`. -/
def tokensFrom (previous : Option Token) (offset : Nat) :
    List Char → Except UnclosedText (List Token)
  | [] => .ok []
  | c :: cs =>
    if isBlank c then tokensFrom previous (offset + 1) cs
    else if c = '"' ∨ c = '\'' then
      match Lexeme.quotedBody? c cs with
      | none => .error ⟨offset, c⟩
      | some (body, width) => do
        let token : Token := ⟨.text, String.ofList body, offset⟩
        let rest ← tokensFrom (some token) (offset + 1 + width) (cs.drop width)
        return token :: rest
    else
      let lexeme := Lexeme.ofChars ((previous.map Token.opensOperand).getD true) c cs
      let rest := cs.drop lexeme.extra
      match lexeme.token with
      | none => tokensFrom previous (offset + 1 + lexeme.extra) rest
      | some (kind, text) => do
        let token : Token := ⟨kind, text, offset⟩
        let tokens ← tokensFrom (some token) (offset + 1 + lexeme.extra) rest
        return token :: tokens
termination_by cs => cs.length
decreasing_by
  · simp only [List.length_cons]; omega
  · simp only [List.length_cons, List.length_drop]; omega
  · simp only [List.length_cons, List.length_drop]; omega
  · simp only [List.length_cons, List.length_drop]; omega

def tokenize (s : String) : Except UnclosedText (List Token) := tokensFrom none 0 s.toList

end NoteQuery
