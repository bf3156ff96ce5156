import NoteQuery.Number.Basic

/-!
A place in a YAML document: the rest of the text, with the line and the column where it starts.
-/

namespace NoteQuery.Yaml
set_option autoImplicit false

/-- Why frontmatter cannot be read. -/
inductive Fault where
  /-- It is no YAML document, or holds what no value is known for. -/
  | malformed
  | badInteger (base : Nat) (text : String)
  | badReal (text : String)
  | badBoolean (text : String)
  | emptyNumber
  | badTimestamp
  | badYear (year : Nat)
  | badMonth
  | badDay
  | badHour
  | badMinute
  | badSecond
  /-- A distance from universal time of a day or more, in minutes. -/
  | badOffset (minutes : Int)
  | badCodePoint (n : Nat)
  | outOfRange (cause : RangeError)
  deriving DecidableEq

def isBreak (c : Char) : Bool :=
  c == '\n' || c == '\r' || c == '\u0085' || c == '\u2028' || c == '\u2029'

def isGap (c : Char) : Bool := c == ' ' || c == '\t'

/-- Whether a word ends before a character, or before the end of the text. -/
def endsWord (c? : Option Char) : Bool := c?.all fun c => isGap c || isBreak c

/-- The same, but a tab is part of the word. -/
def endsLineOrWord (c? : Option Char) : Bool := c?.all fun c => c == ' ' || isBreak c

def endsLine (c? : Option Char) : Bool := c?.all isBreak

/-- Characters that may stand in a document. -/
def isDocumentChar (c : Char) : Bool :=
  let n := c.toNat
  c == '\t' || c == '\n' || c == '\r' || (0x20 ≤ n && n ≤ 0x7e) || n == 0x85 ||
    (0xa0 ≤ n && n ≤ 0xfffd) || 0x10000 ≤ n

def byteOrderMark : Char := '\ufeff'

structure Cursor where
  rest : List Char
  index : Nat
  line : Nat
  column : Nat

namespace Cursor

def ofChars (cs : List Char) : Cursor := ⟨cs, 0, 0, 0⟩

def peek (c : Cursor) : Option Char := c.rest.head?

def peekAt (c : Cursor) (n : Nat) : Option Char := c.rest[n]?

/-- One character further. A carriage return before a line feed ends no line by itself. -/
def next (c : Cursor) : Cursor :=
  match c.rest with
  | [] => c
  | x :: rest =>
    if isBreak x && !(x == '\r' && rest.head? == some '\n') then ⟨rest, c.index + 1, c.line + 1, 0⟩
    else ⟨rest, c.index + 1, c.line, if x == byteOrderMark then c.column else c.column + 1⟩

def skip (c : Cursor) : Nat → Cursor
  | 0 => c
  | n + 1 => c.next.skip n

/-- The characters from here on that fulfil a condition, and the place behind them. -/
def span (c : Cursor) (p : Char → Bool) : List Char × Cursor :=
  let taken := c.rest.takeWhile p
  (taken, c.skip taken.length)

def skipWhile (c : Cursor) (p : Char → Bool) : Cursor := (c.span p).2

/-- The end of a line: the character that it stands for in a text, and the place behind it. -/
def takeBreak? (c : Cursor) : Option (Char × Cursor) :=
  match c.rest with
  | '\r' :: '\n' :: _ => some ('\n', c.skip 2)
  | x :: _ =>
    if x == '\u2028' || x == '\u2029' then some (x, c.next)
    else if isBreak x then some ('\n', c.next)
    else none
  | [] => none

/-- Whether three dashes or three points stand here by themselves. -/
def atSeparator (c : Cursor) : Bool :=
  match c.rest with
  | '-' :: '-' :: '-' :: rest => endsWord rest.head?
  | '.' :: '.' :: '.' :: rest => endsWord rest.head?
  | _ => false

/-- The place behind a comment, if one stands here. -/
def skipComment (c : Cursor) : Cursor :=
  if c.peek == some '#' then c.skipWhile fun x => !isBreak x else c

/-- The place behind the rest of a line that may hold only a comment. -/
def skipRestOfLine? (c : Cursor) : Option Cursor :=
  let c := (c.skipWhile (· == ' ')).skipComment
  if endsLine c.peek then some ((c.takeBreak?.map (·.2)).getD c) else none

end Cursor

/-- What the end of a line and the ends of empty lines after it stand for: a blank, unless there are
empty lines. -/
def folded (first : Char) (more : List Char) : List Char :=
  if first != '\n' then first :: more else if more.isEmpty then [' '] else more

end NoteQuery.Yaml
