import NoteQuery.Yaml.Cursor

/-!
The written forms of a scalar: plain words, text in quotes, and blocks of lines. Each form is read
from its first character on, and gives the text with the place behind it.
-/

namespace NoteQuery.Yaml
set_option autoImplicit false

/-! ### Plain words -/

def isFlowMark (c : Char) : Bool := c == ',' || c == '[' || c == ']' || c == '\x7b' || c == '\x7d'

/-- The word at the head of a text; `flow` tells whether brackets and commas end it. -/
def plainWord (flow : Bool) : List Char → List Char
  | [] => []
  | c :: cs =>
    let ends := endsWord (some c) ||
      (c == ':' && (endsWord cs.head? || (flow && cs.head?.any isFlowMark))) ||
      (flow && (isFlowMark c || c == '?'))
    if ends then [] else c :: plainWord flow cs

structure PlainGap where
  /-- What the gap stands for; nothing where the scalar ends before it. -/
  text : List Char
  brokeLine : Bool
  after : Cursor

/-- Ends of lines and blanks; nothing is given where a separator of documents follows. -/
def plainBreaks : Nat → List Char → Cursor → Option (List Char) × Cursor
  | 0, found, c => (some found, c)
  | fuel + 1, found, c =>
    if c.peek == some ' ' then plainBreaks fuel found c.next
    else match c.takeBreak? with
      | none => (some found, c)
      | some (b, c) => if c.atSeparator then (none, c) else plainBreaks fuel (found ++ [b]) c

def plainGap (c : Cursor) : PlainGap :=
  let (blanks, c) := c.span (· == ' ')
  match c.takeBreak? with
  | none => ⟨blanks, false, c⟩
  | some (b, c) =>
    if c.atSeparator then ⟨[], true, c⟩
    else match plainBreaks (c.rest.length + 1) [] c with
      | (none, c) => ⟨[], true, c⟩
      | (some more, c) => ⟨folded b more, true, c⟩

/-- A scalar of plain words. Its lines are indented by `indent` columns at least. -/
def plainFrom (flow : Bool) (indent : Nat) :
    Nat → (text gap : List Char) → (brokeLine : Bool) → Cursor → PlainGap
  | 0, text, _, brokeLine, c => ⟨text, brokeLine, c⟩
  | fuel + 1, text, gap, brokeLine, c =>
    let word := if c.peek == some '#' then [] else plainWord flow c.rest
    if word.isEmpty then ⟨text, brokeLine, c⟩
    else
      let text := text ++ gap ++ word
      let g := plainGap (c.skip word.length)
      if g.text.isEmpty || g.after.peek == some '#' || (!flow && g.after.column < indent) then
        ⟨text, g.brokeLine, g.after⟩
      else plainFrom flow indent fuel text g.text g.brokeLine g.after

/-- The plain scalar that starts here, and whether a line ended behind its last word. -/
def plain (flow : Bool) (indent : Nat) (c : Cursor) : PlainGap :=
  plainFrom flow indent (c.rest.length + 1) [] [] false c

/-! ### Quoted text -/

/-- Blanks and ends of lines within quotes. -/
def quotedBreaks : Nat → List Char → Cursor → Except Fault (List Char × Cursor)
  | 0, found, c => .ok (found, c)
  | fuel + 1, found, c =>
    if c.atSeparator then .error .malformed
    else
      let c := c.skipWhile isGap
      match c.takeBreak? with
      | none => .ok (found, c)
      | some (b, c) => quotedBreaks fuel (found ++ [b]) c

def quotedGap (c : Cursor) : Except Fault (List Char × Cursor) :=
  let (blanks, c) := c.span isGap
  match c.takeBreak? with
  | none => .ok (blanks, c)
  | some (b, c) => do
    let (more, c) ← quotedBreaks (c.rest.length + 1) [] c
    return (folded b more, c)

/-- What an escape of one character stands for. -/
def escapedChar? : Char → Option Char
  | '0' => some '\x00'
  | 'a' => some '\x07'
  | 'b' => some '\x08'
  | 't' => some '\t'
  | '\t' => some '\t'
  | 'n' => some '\n'
  | 'v' => some '\x0b'
  | 'f' => some '\x0c'
  | 'r' => some '\r'
  | 'e' => some '\x1b'
  | ' ' => some ' '
  | '"' => some '"'
  | '\\' => some '\\'
  | '/' => some '/'
  | 'N' => some '\u0085'
  | '_' => some '\u00a0'
  | 'L' => some '\u2028'
  | 'P' => some '\u2029'
  | _ => none

/-- How many hexadecimal digits follow the letter of an escape. -/
def escapeWidth? : Char → Option Nat
  | 'x' => some 2
  | 'u' => some 4
  | 'U' => some 8
  | _ => none

def hexDigit? (c : Char) : Option Nat :=
  if c.isDigit then some (c.toNat - 48)
  else if 'a' ≤ c ∧ c ≤ 'f' then some (c.toNat - 87)
  else if 'A' ≤ c ∧ c ≤ 'F' then some (c.toNat - 55)
  else none

/-- The text of an escape, from the character behind the backslash on. -/
def escapeText (c : Cursor) : Except Fault (List Char × Cursor) :=
  match c.peek with
  | none => .error .malformed
  | some x =>
    match escapedChar? x, escapeWidth? x with
    | some y, _ => .ok ([y], c.next)
    | none, some width =>
      let digits := ((c.rest.drop 1).take width).mapM hexDigit?
      match digits with
      | none => .error .malformed
      | some ds =>
        if ds.length = width then
          let n := ds.foldl (fun n d => n * 16 + d) 0
          if 0x10ffff < n then .error (.badCodePoint n)
          else .ok ([Char.ofNat n], c.skip (width + 1))
        else .error .malformed
    | none, none =>
      match c.takeBreak? with
      | none => .error .malformed
      | some (_, c) => quotedBreaks (c.rest.length + 1) [] c

/-- Text in quotes, from a place within them on. -/
def quotedFrom (double : Bool) : Nat → List Char → Cursor → Except Fault (List Char × Cursor)
  | 0, _, _ => .error .malformed
  | fuel + 1, text, c =>
    match c.peek with
    | none => .error .malformed
    | some x =>
      if isGap x || isBreak x then do
        let (gap, c) ← quotedGap c
        quotedFrom double fuel (text ++ gap) c
      else if double && x == '\\' then do
        let (escaped, c) ← escapeText c.next
        quotedFrom double fuel (text ++ escaped) c
      else if double && x == '"' then .ok (text, c.next)
      else if !double && x == '\'' then
        if c.peekAt 1 == some '\'' then quotedFrom double fuel (text ++ ['\'']) (c.skip 2)
        else .ok (text, c.next)
      else quotedFrom double fuel (text ++ [x]) c.next

/-- The text in quotes that starts here. -/
def quoted (double : Bool) (c : Cursor) : Except Fault (List Char × Cursor) :=
  quotedFrom double (c.rest.length + 1) [] c.next

/-! ### Blocks of lines -/

/-- What becomes of the ends of lines behind the last line of a block. -/
inductive Chomping where
  | clip
  | strip
  | keep
  deriving DecidableEq

structure BlockHeader where
  chomping : Chomping
  /-- The indentation beyond that of the surroundings, where it is given. -/
  increment : Option Nat

def chomping? : Option Char → Option Chomping
  | some '+' => some .keep
  | some '-' => some .strip
  | _ => none

/-- An indentation of one to nine; zero is refused. -/
def increment? (c : Cursor) : Except Fault (Option Nat × Cursor) :=
  match c.peek with
  | some x =>
    if x == '0' then .error .malformed
    else if x.isDigit then .ok (some (x.toNat - 48), c.next)
    else .ok (none, c)
  | none => .ok (none, c)

/-- The header of a block, from the character behind its indicator on, up to the next line. -/
def blockHeader (c : Cursor) : Except Fault (BlockHeader × Cursor) := do
  let first := chomping? c.peek
  let c := if first.isSome then c.next else c
  let (increment, c) ← increment? c
  let second := if first.isSome then none else chomping? c.peek
  let c := if second.isSome then c.next else c
  if !endsLineOrWord c.peek then throw .malformed
  match c.skipRestOfLine? with
  | none => throw .malformed
  | some c => return (⟨(first.or second).getD .clip, increment⟩, c)

/-- Empty lines before a block, and the greatest column that blanks among them reach. -/
def blockStart : Nat → List Char → Nat → Cursor → List Char × Nat × Cursor
  | 0, found, most, c => (found, most, c)
  | fuel + 1, found, most, c =>
    if c.peek == some ' ' then blockStart fuel found (max most c.next.column) c.next
    else match c.takeBreak? with
      | none => (found, most, c)
      | some (b, c) => blockStart fuel (found ++ [b]) most c

/-- The place behind blanks up to a column. -/
def indentTo (column : Nat) : Nat → Cursor → Cursor
  | 0, c => c
  | fuel + 1, c =>
    if c.column < column ∧ c.peek = some ' ' then indentTo column fuel c.next else c

/-- Empty lines within a block, up to the column where its lines start. -/
def blockBreaks (column : Nat) : Nat → List Char → Cursor → List Char × Cursor
  | 0, found, c => (found, c)
  | fuel + 1, found, c =>
    let c := indentTo column column c
    match c.takeBreak? with
    | none => (found, c)
    | some (b, c) => blockBreaks column fuel (found ++ [b]) c

/-- The lines of a block: their text, the end of the last one, and the empty lines behind it. -/
structure BlockLines where
  text : List Char
  lastBreak : List Char
  breaks : List Char
  after : Cursor

/-- Whether a block goes on here. -/
def inBlock (column : Nat) (c : Cursor) : Bool := c.column == column && !c.rest.isEmpty

def blockLines (isFolded : Bool) (column : Nat) : Nat → (text breaks : List Char) → Cursor → BlockLines
  | 0, text, breaks, c => ⟨text, [], breaks, c⟩
  | fuel + 1, text, breaks, c =>
    if inBlock column c then
      let leading := c.peek.all fun x => !isGap x
      let (line, c) := c.span fun x => !isBreak x
      let text := text ++ breaks ++ line
      let (lastBreak, c) := match c.takeBreak? with
        | none => ([], c)
        | some (b, c) => ([b], c)
      let (breaks, c) := blockBreaks column (c.rest.length + 1) [] c
      if inBlock column c then
        let joint :=
          if isFolded && lastBreak == ['\n'] && leading && c.peek.all fun x => !isGap x then
            if breaks.isEmpty then [' '] else []
          else lastBreak
        blockLines isFolded column fuel (text ++ joint) breaks c
      else ⟨text, lastBreak, breaks, c⟩
    else ⟨text, [], breaks, c⟩

/-- The block that starts here, within surroundings that are indented by less than `least`
columns. -/
def block (isFolded : Bool) (least : Nat) (c : Cursor) : Except Fault (List Char × Cursor) := do
  let (header, c) ← blockHeader c.next
  let least := max least 1
  let fuel := c.rest.length + 1
  let (column, breaks, c) := match header.increment with
    | some n =>
      let column := least + n - 1
      (column, blockBreaks column fuel [] c)
    | none =>
      let (breaks, most, c) := blockStart fuel [] 0 c
      (max least most, breaks, c)
  let lines := blockLines isFolded column fuel [] breaks c
  let tail := match header.chomping with
    | .strip => []
    | .clip => lines.lastBreak
    | .keep => lines.lastBreak ++ lines.breaks
  return (lines.text ++ tail, lines.after)

end NoteQuery.Yaml
