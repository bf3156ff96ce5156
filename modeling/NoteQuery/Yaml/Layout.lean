import NoteQuery.Yaml.Token

/-!
Reading the tokens of a document. Indentation opens and closes blocks. Whether a word is the key of a
mapping shows only at the colon behind it, so its place among the tokens is kept until then: the
colon must follow on the same line, within 1024 characters.
-/

namespace NoteQuery.Yaml
set_option autoImplicit false

/-- A place where a key may have started. -/
structure PossibleKey where
  /-- The number of tokens before it. -/
  position : Nat
  /-- Whether nothing but a key can stand there. -/
  required : Bool
  index : Nat
  line : Nat
  column : Nat

structure Layout where
  cursor : Cursor
  tokens : List Token
  /-- The columns of the blocks that are open, the innermost first. -/
  columns : List Nat
  /-- The possible key within the brackets that are open last, and those around them. -/
  key? : Option PossibleKey
  outerKeys : List (Option PossibleKey)
  /-- Whether a key may start at the next token. -/
  keyAllowed : Bool

namespace Layout

def ofChars (cs : List Char) : Layout := ⟨.ofChars cs, [], [], none, [], true⟩

/-- Whether brackets are open. -/
def inFlow (l : Layout) : Bool := !l.outerKeys.isEmpty

/-- The least column of what belongs to the innermost block. -/
def leastColumn (l : Layout) : Nat := (l.columns.head?.map (· + 1)).getD 0

def push (l : Layout) (t : Token) : Layout := { l with tokens := l.tokens ++ [t] }

def pushAndSkip (l : Layout) (t : Token) (n : Nat) : Layout :=
  { l.push t with cursor := l.cursor.skip n }

def insertAt (l : Layout) (position : Nat) (t : Token) : Layout :=
  { l with tokens := l.tokens.take position ++ t :: l.tokens.drop position }

def allowKey (l : Layout) (b : Bool) : Layout := { l with keyAllowed := b }

/-- Closes the blocks that reach beyond a column; all of them where none is given. -/
def closeBlocks (l : Layout) (column? : Option Nat) : Layout :=
  if l.inFlow then l
  else
    let closed := l.columns.takeWhile fun c => column?.all (· < c)
    { l with columns := l.columns.drop closed.length, tokens := l.tokens ++ closed.map fun _ => .blockEnd }

/-- Whether a block that starts at a column is a new one. -/
def opensBlock (l : Layout) (column : Nat) : Bool := l.columns.head?.all (· < column)

/-- Opens a block at a column, before the token at a position, unless it is open. -/
def openBlock (l : Layout) (column position : Nat) (start : Token) : Layout :=
  if !l.inFlow && l.opensBlock column then
    { l.insertAt position start with columns := column :: l.columns }
  else l

def openBlockHere (l : Layout) (start : Token) : Layout :=
  l.openBlock l.cursor.column l.tokens.length start

/-- A possible key is given up; one that is required may not be. -/
def dropKey (l : Layout) : Except Fault Layout :=
  if l.key?.any (·.required) then .error .malformed else .ok { l with key? := none }

/-- Whether a possible key is out of reach. -/
def isStale (l : Layout) (k : PossibleKey) : Bool :=
  k.line != l.cursor.line || 1024 < l.cursor.index - k.index

def freshKey (l : Layout) : Option PossibleKey → Except Fault (Option PossibleKey)
  | none => .ok none
  | some k =>
    if l.isStale k then if k.required then .error .malformed else .ok none else .ok (some k)

/-- Gives up the keys that are out of reach. -/
def refresh (l : Layout) : Except Fault Layout := do
  let outerKeys ← l.outerKeys.mapM l.freshKey
  let key? ← l.freshKey l.key?
  return { l with key?, outerKeys }

/-- Notes that a key may start here. -/
def noteKey (l : Layout) : Except Fault Layout :=
  if l.keyAllowed then do
    let c := l.cursor
    let required := !l.inFlow && l.columns.head? == some c.column
    let l ← l.dropKey
    return { l with key? := some ⟨l.tokens.length, required, c.index, c.line, c.column⟩ }
  else .ok l

/-- The next place where a token starts. A line that ends outside of brackets lets a key start. -/
def toNextToken : Nat → Layout → Layout
  | 0, l => l
  | fuel + 1, l =>
    let c := (l.cursor.skipWhile (· == ' ')).skipComment
    match c.takeBreak? with
    | none => { l with cursor := c }
    | some (_, c) => toNextToken fuel { l with cursor := c, keyAllowed := l.keyAllowed || !l.inFlow }

/-! ### Tokens -/

def streamEnd (l : Layout) : Except Fault Layout := do
  let l ← (l.closeBlocks none).dropKey
  return l.push .streamEnd

def directive (l : Layout) : Except Fault Layout := do
  let l ← (l.closeBlocks none).dropKey
  let (d, cursor) ← readDirective l.cursor
  return { (l.push (.directive d)).allowKey false with cursor }

def documentMark (t : Token) (l : Layout) : Except Fault Layout := do
  let l ← (l.closeBlocks none).dropKey
  return (l.pushAndSkip t 3).allowKey false

def flowStart (t : Token) (l : Layout) : Except Fault Layout := do
  let l ← l.noteKey
  return { (l.pushAndSkip t 1).allowKey true with key? := none, outerKeys := l.key? :: l.outerKeys }

def flowEnd (t : Token) (l : Layout) : Except Fault Layout := do
  let l ← l.dropKey
  return { (l.pushAndSkip t 1).allowKey false with
    key? := l.outerKeys.head?.join, outerKeys := l.outerKeys.tail }

def flowEntry (l : Layout) : Except Fault Layout := do
  let l ← (l.allowKey true).dropKey
  return l.pushAndSkip .flowEntry 1

def blockEntry (l : Layout) : Except Fault Layout := do
  if !l.inFlow && !l.keyAllowed then throw .malformed
  let l ← ((l.openBlockHere .blockSequenceStart).allowKey true).dropKey
  return l.pushAndSkip .blockEntry 1

def keyMark (l : Layout) : Except Fault Layout := do
  if !l.inFlow && !l.keyAllowed then throw .malformed
  let l ← ((l.openBlockHere .blockMappingStart).allowKey !l.inFlow).dropKey
  return l.pushAndSkip .key 1

def valueMark (l : Layout) : Except Fault Layout :=
  match l.key? with
  | some k =>
    let l := (({ l with key? := none }.insertAt k.position .key).openBlock k.column k.position
      .blockMappingStart).allowKey false
    .ok (l.pushAndSkip .value 1)
  | none => do
    if !l.inFlow && !l.keyAllowed then throw .malformed
    let l ← ((l.openBlockHere .blockMappingStart).allowKey !l.inFlow).dropKey
    return l.pushAndSkip .value 1

/-- A token that a key may start with, read from the cursor on. -/
def keyStart (read : Cursor → Except Fault (Token × Cursor)) (l : Layout) : Except Fault Layout := do
  let l ← l.noteKey
  let (t, cursor) ← read l.cursor
  return { (l.push t).allowKey false with cursor }

def scalarToken (isPlain : Bool) (r : List Char × Cursor) : Token × Cursor :=
  (.scalar (String.ofList r.1) isPlain, r.2)

def plainScalar (l : Layout) : Except Fault Layout := do
  let l ← l.noteKey
  let g := plain l.inFlow l.leastColumn l.cursor
  let (t, cursor) := scalarToken true (g.text, g.after)
  return { (l.push t).allowKey g.brokeLine with cursor }

def blockScalar (isFolded : Bool) (l : Layout) : Except Fault Layout := do
  let l ← (l.allowKey true).dropKey
  let (t, cursor) := scalarToken false (← block isFolded l.leastColumn l.cursor)
  return { l.push t with cursor }

/-- Whether a plain scalar starts here. -/
def startsPlain (l : Layout) (x : Char) : Bool :=
  let next := l.cursor.peekAt 1
  if "-?:,[]\x7b\x7d#&*!|>'\"%@`".toList.contains x || isGap x || isBreak x then
    !endsWord next && (x == '-' || (!l.inFlow && (x == '?' || x == ':')))
  else true

/-- Reads the token that starts here. -/
def readToken (l : Layout) (x : Char) : Except Fault Layout :=
  let c := l.cursor
  let marks := l.inFlow || endsWord (c.peekAt 1)
  if c.column = 0 ∧ x = '%' then l.directive
  else if c.column = 0 ∧ x = '-' ∧ c.atSeparator then l.documentMark .documentStart
  else if c.column = 0 ∧ x = '.' ∧ c.atSeparator then l.documentMark .documentEnd
  else if x = '[' then l.flowStart .flowSequenceStart
  else if x = '\x7b' then l.flowStart .flowMappingStart
  else if x = ']' then l.flowEnd .flowSequenceEnd
  else if x = '\x7d' then l.flowEnd .flowMappingEnd
  else if x = ',' then l.flowEntry
  else if x = '-' ∧ endsWord (c.peekAt 1) then l.blockEntry
  else if x = '?' ∧ marks then l.keyMark
  else if x = ':' ∧ marks then l.valueMark
  else if x = '*' then l.keyStart fun c => do
    let (name, c) ← anchorName c.next
    return (.alias name, c)
  else if x = '&' then l.keyStart fun c => do
    let (name, c) ← anchorName c.next
    return (.anchor name, c)
  else if x = '!' then l.keyStart fun c => do
    let (t, c) ← readTag c
    return (.tag t, c)
  else if x = '|' ∧ !l.inFlow then l.blockScalar false
  else if x = '>' ∧ !l.inFlow then l.blockScalar true
  else if x = '\'' then l.keyStart fun c => scalarToken false <$> quoted false c
  else if x = '"' then l.keyStart fun c => scalarToken false <$> quoted true c
  else if l.startsPlain x then l.plainScalar
  else .error .malformed

/-- All tokens from here on. -/
def tokensFrom : Nat → Layout → Except Fault (List Token)
  | 0, _ => .error .malformed
  | fuel + 1, l => do
    let l ← (toNextToken (l.cursor.rest.length + 1) l).refresh
    let l := l.closeBlocks (some l.cursor.column)
    match l.cursor.peek with
    | none => return (← l.streamEnd).tokens
    | some x => tokensFrom fuel (← l.readToken x)

end Layout

/-- The tokens of a document. A mark of byte order at its start does not count. -/
def Token.ofChars (cs : List Char) : Except Fault (List Token) :=
  if cs.all isDocumentChar then
    let l := Layout.ofChars cs
    let l := if l.cursor.peek == some byteOrderMark then { l with cursor := l.cursor.next } else l
    l.tokensFrom (cs.length + 2)
  else .error .malformed

end NoteQuery.Yaml
