import NoteQuery.Number.Numeral
import NoteQuery.Pattern.Basic
import NoteQuery.Text.Identifier

/-!
Reading a pattern. A text is first cut into characters and escapes; then alternatives, sequences and
items are read by descent. Settings for a whole pattern stand before all of its items. Of several
faults the first from left to right counts; some are seen only at the end.
-/

namespace NoteQuery.Pattern
set_option autoImplicit false
open NoteQuery.Text

inductive Fault where
  | malformed
  | repetitionTooLarge
  | mixedClasses
  deriving DecidableEq, Repr

inductive Piece where
  | plain (c : Char)
  | escaped (c : Char)
  | dangling
  deriving DecidableEq, Repr

def Piece.chars : Piece → List Char
  | plain c => [c]
  | escaped c => ['\\', c]
  | dangling => ['\\']

def piecesOf : List Char → List Piece
  | [] => []
  | ['\\'] => [.dangling]
  | '\\' :: c :: cs => .escaped c :: piecesOf cs
  | c :: cs => .plain c :: piecesOf cs

/-- The settings that a part of a pattern is read under. -/
structure Setting where
  folds : Bool
  multiline : Bool
  dotAll : Bool
  verbose : Bool
  ascii : Bool

def Setting.folding (s : Setting) : Folding :=
  if !s.folds then .exact else if s.ascii then .latin else .full

/-- What is left of a pattern and what is known of its part read so far. -/
structure Progress where
  pieces : List Piece
  /-- Widths of the groups opened so far; none while a group is open. -/
  widths : List (Option Width)
  names : List (String × Nat)
  /-- The number of groups before the outermost look-behind around. -/
  outside : Option Nat
  /-- Groups that conditions ask for. -/
  asked : List Nat

abbrev Reading := StateT Progress (Except Fault)

namespace Reading

def malformed {α : Type} : Reading α := throw .malformed

def peek : Reading (Option Piece) := do return (← get).pieces.head?

def advance : Reading Unit := modify fun p => { p with pieces := p.pieces.tail }

def next? : Reading (Option Piece) := do
  let piece ← peek
  advance
  return piece

/-- Takes a character if it is next. -/
def accept (c : Char) : Reading Bool := do
  if (← peek) == some (.plain c) then
    advance
    return true
  else return false

def require (c : Char) : Reading Unit := do
  unless ← accept c do malformed

/-- Takes up to `n` characters that pass a test. -/
def takeUpTo (test : Char → Bool) (n : Nat) : Reading (List Char) := do
  let cs := ((← get).pieces.take n).map fun
    | .plain c => if test c then some c else none
    | _ => none
  let taken := (cs.takeWhile (·.isSome)).filterMap id
  modify fun p => { p with pieces := p.pieces.drop taken.length }
  return taken

def takeDigits : Reading (List Char) := do takeUpTo Char.isDigit (← get).pieces.length

/-- A name up to a closing character. -/
def nameUntil (closing : Char) : Reading (List Char) := do
  let ps := (← get).pieces
  let name := (ps.takeWhile (· != .plain closing)).flatMap Piece.chars
  let rest := ps.dropWhile (· != .plain closing)
  if name.isEmpty || rest.isEmpty then malformed
  modify fun p => { p with pieces := rest.tail }
  return name

/-- The width of a group that is closed. -/
def closedWidth? (p : Progress) (n : Nat) : Option Width :=
  if n = 0 then none else (p.widths[n - 1]?).join

/-- In a look-behind only groups from before it may be repeated. -/
def checkOutside (n : Nat) : Reading Unit := do
  let p ← get
  match p.outside with
  | none => return
  | some count => if (closedWidth? p n).isNone || count < n then malformed

def widthOf (node : Node) : Reading Width := do
  let p ← get
  return node.width fun n => (closedWidth? p n).getD (.fixed 0)

end Reading

open Reading

def isOctal (c : Char) : Bool := '0' ≤ c && c ≤ '7'

def isHex (c : Char) : Bool := c.isDigit || ('a' ≤ c && c ≤ 'f') || ('A' ≤ c && c ≤ 'F')

def hexValue (c : Char) : Nat :=
  if c.isDigit then c.toNat - 48 else if c.isUpper then c.toNat - 55 else c.toNat - 87

def numberIn (base : Nat) (cs : List Char) : Nat := cs.foldl (fun n c => base * n + hexValue c) 0

/-- Escapes of control characters. -/
def control? : Char → Option Nat
  | 'a' => some 7
  | 'b' => some 8
  | 'f' => some 12
  | 'n' => some 10
  | 'r' => some 13
  | 't' => some 9
  | 'v' => some 11
  | '\\' => some 92
  | _ => none

def class? : Char → Option (CharClass × Bool)
  | 'd' => some (.digit, false)
  | 'D' => some (.digit, true)
  | 's' => some (.blank, false)
  | 'S' => some (.blank, true)
  | 'w' => some (.word, false)
  | 'W' => some (.word, true)
  | _ => none

/-- A code written with exactly `n` hexadecimal digits. -/
def hexCode (n : Nat) : Reading Nat := do
  let ds ← takeUpTo isHex n
  if ds.length < n then malformed
  let code := numberIn 16 ds
  if 0x10ffff < code then malformed
  return code

/-- The code of an escape that means the same in and outside sets, if it is one. Characters are not
known by their names. -/
def codeEscape? (c : Char) : Reading (Option Nat) := do
  match c with
  | 'x' => some <$> hexCode 2
  | 'u' => some <$> hexCode 4
  | 'U' => some <$> hexCode 8
  | _ => return none

/-- A character that an escape leaves as it is. -/
def plainEscape (c : Char) : Reading Nat := do
  if c.isAlphanum then malformed
  return c.toNat

def octalCode (digits : List Char) : Reading Nat := do
  let code := numberIn 8 digits
  if 0o377 < code then malformed
  return code

/-- An escape in a set. -/
def memberEscape (ascii : Bool) (c : Char) : Reading Member := do
  match control? c, class? c with
  | some n, _ => return .one n
  | none, some (k, negated) => return .cls k negated ascii
  | none, none =>
    if let some n ← codeEscape? c then return .one n
    if isOctal c then return .one (← octalCode (c :: (← takeUpTo isOctal 2)))
    return .one (← plainEscape c)

/-- A repetition of a group by its number. -/
def backReference (s : Setting) (n : Nat) : Reading Node := do
  if (closedWidth? (← get) n).isNone then malformed
  checkOutside n
  return .again n s.folding

/-- Three octal digits are a code, and other digits that do not start with zero name a group. -/
def numberEscape (s : Setting) (c : Char) : Reading Node := do
  let code (n : Nat) : Node := .char (.code n s.folding false)
  if c == '0' then
    let ds ← takeUpTo isOctal 2
    return code (numberIn 8 ds)
  let second ← takeUpTo Char.isDigit 1
  if isOctal c && second.any isOctal then
    let third ← takeUpTo isOctal 1
    unless third.isEmpty do
      return code (← octalCode (c :: (second ++ third)))
  backReference s (numberIn 10 (c :: second))

def place? (s : Setting) : Char → Option Place
  | 'A' => some .textStart
  | 'Z' => some .textEnd
  | 'b' => some (.boundary s.ascii false)
  | 'B' => some (.boundary s.ascii true)
  | _ => none

/-- An escape outside sets. -/
def itemEscape (s : Setting) (c : Char) : Reading Node := do
  match place? s c, class? c, control? c with
  | some p, _, _ => return .place p
  | none, some (k, negated), _ => return .char (.set [.cls k negated s.ascii] s.folding false)
  | none, none, some n => return .char (.code n s.folding false)
  | none, none, none =>
    if let some n ← codeEscape? c then return .char (.code n s.folding false)
    if c.isDigit then numberEscape s c
    else return .char (.code (← plainEscape c) s.folding false)

def setPiece (ascii : Bool) : Piece → Reading Member
  | .plain c => return .one c.toNat
  | .escaped c => memberEscape ascii c
  | .dangling => malformed

/-- The members of a set up to its closing bracket, which as the first member stands for itself. -/
def setMembers (ascii : Bool) : Nat → List Member → Reading (List Member)
  | 0, _ => malformed
  | fuel + 1, ms => do
    match ← next? with
    | none => malformed
    | some piece =>
      if piece == .plain ']' && !ms.isEmpty then return ms
      let first ← setPiece ascii piece
      if ← accept '-' then
        match ← next? with
        | none => malformed
        | some (.plain ']') => return ms ++ [first, .one '-'.toNat]
        | some piece =>
          match first, ← setPiece ascii piece with
          | .one a, .one b =>
            if b < a then malformed
            setMembers ascii fuel (ms ++ [.range a b])
          | _, _ => malformed
      else setMembers ascii fuel (ms ++ [first])

def readSet (s : Setting) : Reading Node := do
  let negated ← accept '^'
  let ms ← setMembers s.ascii ((← get).pieces.length + 1) []
  match ms.eraseDups with
  | [.one n] => return .char (.code n s.folding negated)
  | _ => return .char (.set ms s.folding negated)

/-- Counts from this one on are refused. -/
def repetitionLimit : Nat := 4294967295

/-- A count of repetitions; none where nothing is written. -/
def repetitionCount (digits : List Char) : Reading (Option Nat) := do
  if digits.isEmpty then return none
  let n := numberIn 10 digits
  if n < repetitionLimit then return some n
  if (← peek) == some .dangling then malformed
  throw .repetitionTooLarge

/-- The bounds between braces; none, with nothing taken, where braces stand for themselves. -/
def braces? : Reading (Option (Nat × Option Nat)) := do
  let start ← get
  if (← peek) == some (.plain '\x7d') then return none
  let low ← takeDigits
  let comma ← accept ','
  let high ← if comma then takeDigits else pure low
  unless ← accept '\x7d' do
    set start
    return none
  let least ← repetitionCount low
  let most ← repetitionCount high
  if let some m := most then
    if m < least.getD 0 then malformed
  return some (least.getD 0, most)

/-- What a repetition may follow: a place may not be repeated, and a repetition only as part of a
group. -/
inductive Standing where
  | item
  | place
  | repetition
  deriving DecidableEq

/-- The items of a sequence, the last one first. -/
abbrev Items := List (Node × Standing)

def greed : Reading Greed := do
  if ← accept '?' then return .lazy
  if ← accept '+' then return .possessive
  return .greedy

def repeatLast (least : Nat) (most : Option Nat) (items : Items) : Reading Items := do
  match items with
  | (node, .item) :: rest =>
    return (.repeated (← greed) least most node, .repetition) :: rest
  | _ => malformed

def sequenceOf (items : Items) : Node :=
  match items with
  | [] => .empty
  | (node, _) :: rest => rest.foldl (fun tail i => .seq i.1 tail) node

/-- The letters of settings. -/
def isLetterOfSetting (c : Char) : Bool := "aiLmstux".toList.contains c

/-- The letters of a setting, with those switched on and those switched off. -/
structure Letters where
  on : List Char
  off : List Char
  closing : Char

def kindLetters : List Char := ['a', 'u']

def lettersOff : Nat → Letters → Char → Reading Letters
  | 0, _, _ => malformed
  | fuel + 1, l, c => do
    if !isLetterOfSetting c || kindLetters.contains c || c == 'L' then malformed
    let l := { l with off := c :: l.off }
    match ← next? with
    | some (.plain ':') => return { l with closing := ':' }
    | some (.plain d) => lettersOff fuel l d
    | _ => malformed

def lettersOn : Nat → Letters → Char → Reading Letters
  | 0, _, _ => malformed
  | fuel + 1, l, c => do
    if !isLetterOfSetting c || c == 'L' then malformed
    let l := { l with on := c :: l.on }
    if kindLetters.all l.on.contains then malformed
    match ← next? with
    | some (.plain ')') => return { l with closing := ')' }
    | some (.plain ':') => return { l with closing := ':' }
    | some (.plain '-') => return { l with closing := '-' }
    | some (.plain d) => lettersOn fuel l d
    | _ => malformed

/-- The letters of a setting whose first character is `c`, up to the closing character. -/
def readLetters (c : Char) : Reading Letters := do
  let fuel := (← get).pieces.length + 1
  let l ← if c == '-' then pure ⟨[], [], '-'⟩ else lettersOn fuel ⟨[], [], ')'⟩ c
  if l.closing == ')' then return l
  if l.on.contains 't' then malformed
  let l ← if l.closing == '-' then
      match ← next? with
      | some (.plain d) => lettersOff fuel l d
      | _ => malformed
    else pure l
  if l.off.contains 't' || l.on.any l.off.contains then malformed
  return l

def Setting.apply (s : Setting) (l : Letters) : Setting :=
  let value (c : Char) (old : Bool) : Bool := (old || l.on.contains c) && !l.off.contains c
  { folds := value 'i' s.folds
    multiline := value 'm' s.multiline
    dotAll := value 's' s.dotAll
    verbose := value 'x' s.verbose
    ascii := if l.on.contains 'u' then false else s.ascii || l.on.contains 'a' }

/-- What opens a group. -/
inductive Opening where
  | capture (name : Option String)
  | plain (s : Setting)
  | atomic
  | ahead (negated : Bool)
  | behind (negated : Bool)

def identifier (name : List Char) : Reading String := do
  unless isIdentifier name do malformed
  return String.ofList name

def groupNamed (name : String) : Reading Nat := do
  match (← get).names.lookup name with
  | none => malformed
  | some n => return n

/-- The group that a condition asks for. -/
def askedGroup : Reading Nat := do
  let name ← nameUntil ')'
  if isIdentifier name then groupNamed (String.ofList name)
  else
    match Numeral.integer? name with
    | some (.ofNat (n + 1)) =>
      modify fun p => { p with asked := (n + 1) :: p.asked }
      return n + 1
    | _ => malformed

def openGroup (name : Option String) : Reading Nat := do
  let p ← get
  let n := p.widths.length + 1
  let names ← match name with
    | none => pure p.names
    | some s => if (p.names.lookup s).isSome then malformed else pure (p.names ++ [(s, n)])
  set { p with widths := p.widths ++ [none], names }
  return n

def closeGroup (n : Nat) (body : Node) : Reading Unit := do
  let w ← widthOf body
  modify fun p => { p with widths := p.widths.set (n - 1) (some w) }

/-- Skips a comment up to its closing parenthesis. -/
def skipComment : Reading Unit := do
  let rest := (← get).pieces.dropWhile (· != .plain ')')
  if rest.isEmpty then malformed
  modify fun p => { p with pieces := rest.tail }

/-- Skips a comment up to the end of its line, or of the pattern. -/
def skipLine : Reading Unit := do
  let ps := (← get).pieces
  let rest := ps.dropWhile (· != .plain '\n')
  if rest.isEmpty && ps.contains .dangling then malformed
  modify fun p => { p with pieces := rest.tail }

/-- Blanks that count for nothing in verbose patterns. -/
def isFiller (c : Char) : Bool := c == ' ' || (9 ≤ c.toNat && c.toNat ≤ 13)

mutual

def alternatives (s : Setting) : Nat → Reading Node
  | 0 => malformed
  | fuel + 1 => do
    let first ← sequence s fuel []
    if ← accept '|' then return .either first (← alternatives s fuel)
    else return first

def sequence (s : Setting) : Nat → Items → Reading Node
  | 0, _ => malformed
  | fuel + 1, items => do
    match ← peek with
    | none => return sequenceOf items
    | some (.plain '|') => return sequenceOf items
    | some (.plain ')') => return sequenceOf items
    | some piece =>
      advance
      sequence s fuel (← item s fuel items piece)

/-- Reads on from a piece and adds what it starts to the items. -/
def item (s : Setting) : Nat → Items → Piece → Reading Items
  | 0, _, _ => malformed
  | fuel + 1, items, piece => do
    match piece with
    | .dangling => malformed
    | .escaped c =>
      let node ← itemEscape s c
      let standing : Standing := match node with
        | .place _ => .place
        | _ => .item
      return (node, standing) :: items
    | .plain c =>
      if s.verbose && isFiller c then return items
      if s.verbose && c == '#' then
        skipLine
        return items
      match c with
      | '[' => return (← readSet s, .item) :: items
      | '?' => repeatLast 0 (some 1) items
      | '*' => repeatLast 0 none items
      | '+' => repeatLast 1 none items
      | '\x7b' =>
        match ← braces? with
        | some (least, most) => repeatLast least most items
        | none => return (.char (.code c.toNat s.folding false), .item) :: items
      | '.' => return (.char (.any s.dotAll), .item) :: items
      | '^' => return (.place (if s.multiline then .lineStart else .textStart), .place) :: items
      | '$' => return (.place (if s.multiline then .lineEnd else .lastLineEnd), .place) :: items
      | '(' =>
        if ← accept '?' then extension s fuel items
        else return (← body s fuel (.capture none), .item) :: items
      | _ => return (.char (.code c.toNat s.folding false), .item) :: items

/-- What follows an opening parenthesis and a question mark. -/
def extension (s : Setting) : Nat → Items → Reading Items
  | 0, _ => malformed
  | fuel + 1, items => do
    match ← next? with
    | some (.plain 'P') =>
      if ← accept '<' then
        let name ← identifier (← nameUntil '>')
        return (← body s fuel (.capture (some name)), .item) :: items
      else
        require '='
        let n ← groupNamed (← identifier (← nameUntil ')'))
        return (← backReference s n, .item) :: items
    | some (.plain ':') => return (← body s fuel (.plain s), .item) :: items
    | some (.plain '#') =>
      skipComment
      return items
    | some (.plain '=') => return (← body s fuel (.ahead false), .item) :: items
    | some (.plain '!') => return (← body s fuel (.ahead true), .item) :: items
    | some (.plain '<') =>
      if ← accept '=' then return (← body s fuel (.behind false), .item) :: items
      else
        require '!'
        return (← body s fuel (.behind true), .item) :: items
    | some (.plain '(') => return (← condition s fuel, .item) :: items
    | some (.plain '>') => return (← body s fuel .atomic, .item) :: items
    | some (.plain c) =>
      if !isLetterOfSetting c && c != '-' then malformed
      let l ← readLetters c
      if l.closing == ')' then malformed
      return (← body s fuel (.plain (s.apply l)), .item) :: items
    | _ => malformed

def condition (s : Setting) : Nat → Reading Node
  | 0 => malformed
  | fuel + 1 => do
    let n ← askedGroup
    checkOutside n
    let yes ← sequence s fuel []
    let no ← if ← accept '|' then sequence s fuel [] else pure .empty
    require ')'
    return .given n yes no

/-- The alternatives of a group and its closing parenthesis. -/
def body (s : Setting) : Nat → Opening → Reading Node
  | 0, _ => malformed
  | fuel + 1, opening => do
    match opening with
    | .capture name =>
      let n ← openGroup name
      let node ← alternatives s fuel
      require ')'
      closeGroup n node
      return .group n node
    | .plain t =>
      let node ← alternatives t fuel
      require ')'
      return node
    | .atomic =>
      let node ← alternatives s fuel
      require ')'
      return .atomic node
    | .ahead negated =>
      let node ← alternatives s fuel
      require ')'
      return .ahead negated node
    | .behind negated =>
      let outside := (← get).outside
      modify fun p => { p with outside := some (outside.getD p.widths.length) }
      let node ← alternatives s fuel
      modify fun p => { p with outside }
      require ')'
      return .behind negated (← widthOf node) node

end

/-- The settings of a whole pattern, which stand at its start. -/
def settings : Nat → Setting → List Char → Reading (Setting × List Char)
  | 0, s, on => return (s, on)
  | fuel + 1, s, on => do
    let start ← get
    match start.pieces with
    | .plain '(' :: .plain '?' :: .plain '#' :: rest =>
      set { start with pieces := rest }
      skipComment
      settings fuel s on
    | .plain '(' :: .plain '?' :: .plain c :: rest =>
      if !isLetterOfSetting c then return (s, on)
      set { start with pieces := rest }
      let l ← readLetters c
      if l.closing == ')' then settings fuel (s.apply l) (l.on ++ on)
      else
        set start
        return (s, on)
    | .plain c :: rest =>
      if s.verbose && isFiller c then
        set { start with pieces := rest }
        settings fuel s on
      else if s.verbose && c == '#' then
        set { start with pieces := rest }
        skipLine
        settings fuel s on
      else return (s, on)
    | _ => return (s, on)

/-- Whether a node repeats something. -/
def Node.repeats : Node → Bool
  | repeated .. => true
  | seq a b => a.repeats || b.repeats
  | either a b => a.repeats || b.repeats
  | given _ a b => a.repeats || b.repeats
  | group _ body => body.repeats
  | ahead _ body => body.repeats
  | behind _ _ body => body.repeats
  | atomic body => body.repeats
  | _ => false

/-- The node of a whole text. The letter t refuses repetitions. -/
def wholeNode : Reading Node := do
  let size := (← get).pieces.length
  let (s, on) ← settings size ⟨false, false, false, false, false⟩ []
  let node ← alternatives { s with ascii := on.contains 'a' } (5 * size + 5)
  if kindLetters.all on.contains then throw .mixedClasses
  let p ← get
  if !p.pieces.isEmpty || p.asked.any (p.widths.length < ·) then malformed
  if !node.hasFixedBacks || (on.contains 't' && node.repeats) then malformed
  return node

def read (cs : List Char) : Except Fault Pattern := do
  let (node, p) ← wholeNode.run ⟨piecesOf cs, [], [], none, []⟩
  return ⟨node, p.widths.length, p.names⟩

end NoteQuery.Pattern
