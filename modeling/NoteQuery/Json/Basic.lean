import NoteQuery.Number.Basic
import NoteQuery.Text.Quoted

/-!
Interchange data and its written form: a comma and a blank between members, a colon and a blank after
names. Characters beyond ASCII are kept or escaped, as the writer chooses.
-/

namespace NoteQuery
set_option autoImplicit false

inductive Json where
  | null
  | bool (b : Bool)
  | number (n : Number)
  | text (s : String)
  | array (items : List Json)
  | object (members : List (String × Json))
  deriving Inhabited

namespace Json

/-- Which characters a writer escapes beyond quotes, backslashes and controls. -/
inductive Escaping where
  | controls
  | beyondAscii
  deriving DecidableEq

def escapeUnit (n : Nat) : List Char := '\\' :: 'u' :: Text.hexDigits 4 n

/-- A character as one or two units of sixteen bits. -/
def escapeUnits (n : Nat) : List Char :=
  if n < 0x10000 then escapeUnit n
  else
    let k := n - 0x10000
    escapeUnit (0xd800 + k / 0x400) ++ escapeUnit (0xdc00 + k % 0x400)

def escapeChar (e : Escaping) (c : Char) : List Char :=
  if c == '"' then ['\\', '"']
  else if c == '\\' then ['\\', '\\']
  else if c == '\n' then ['\\', 'n']
  else if c == '\r' then ['\\', 'r']
  else if c == '\t' then ['\\', 't']
  else if c == '\x08' then ['\\', 'b']
  else if c == '\x0c' then ['\\', 'f']
  else if c.toNat < 32 ∨ (e = .beyondAscii ∧ 126 < c.toNat) then escapeUnits c.toNat
  else [c]

def textChars (e : Escaping) (s : String) : List Char :=
  '"' :: s.toList.flatMap (escapeChar e) ++ ['"']

def commas : List (List Char) → List Char
  | [] => []
  | [p] => p
  | p :: q :: ps => p ++ ',' :: ' ' :: commas (q :: ps)

mutual

def chars (e : Escaping) : Json → List Char
  | null => ['n', 'u', 'l', 'l']
  | bool b => if b then ['t', 'r', 'u', 'e'] else ['f', 'a', 'l', 's', 'e']
  | number n => n.exactText.toList
  | text s => textChars e s
  | array items => '[' :: commas (itemChars e items) ++ [']']
  | object members => '\x7b' :: commas (memberChars e members) ++ ['\x7d']

def itemChars (e : Escaping) : List Json → List (List Char)
  | [] => []
  | j :: js => chars e j :: itemChars e js

def memberChars (e : Escaping) : List (String × Json) → List (List Char)
  | [] => []
  | (k, j) :: ms => (textChars e k ++ ':' :: ' ' :: chars e j) :: memberChars e ms

end

def render (e : Escaping) (j : Json) : String := String.ofList (chars e j)

end Json
end NoteQuery
