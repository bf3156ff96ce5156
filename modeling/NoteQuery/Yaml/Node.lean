import NoteQuery.Pattern.Matching
import NoteQuery.Pattern.Reader
import NoteQuery.Text.Search
import NoteQuery.Yaml.Layout

/-!
Nodes of a document. Every node has a tag, which says what kind of value it stands for; where none is
written, a plain scalar gets that of the first form that its text has.
-/

namespace NoteQuery.Yaml
set_option autoImplicit false

inductive Tag where
  | null
  | bool
  | integer
  | real
  | timestamp
  | text
  | sequence
  | mapping
  | set
  | orderedMapping
  | pairs
  | merge
  | default
  | unknown
  deriving DecidableEq

namespace Tag

/-- What the names of the common tags start with. -/
def commonStart : String := "tag:yaml.org,2002:"

def ofName (name : String) : Tag :=
  match (Text.after? commonStart.toList name.toList).map String.ofList with
  | some "null" => null
  | some "bool" => bool
  | some "int" => integer
  | some "float" => real
  | some "timestamp" => timestamp
  | some "str" => text
  | some "seq" => sequence
  | some "map" => mapping
  | some "set" => set
  | some "omap" => orderedMapping
  | some "pairs" => pairs
  | some "merge" => merge
  | some "value" => default
  | _ => unknown

end Tag

inductive Node where
  | scalar (tag : Tag) (text : String)
  | sequence (tag : Tag) (items : List Node)
  | mapping (tag : Tag) (entries : List (Node × Node))

namespace Node

def tag : Node → Tag
  | scalar t _ => t
  | sequence t _ => t
  | mapping t _ => t

end Node

/-! ### Forms of plain scalars -/

/-- The pattern of a form, which must match a whole text. -/
def formPattern? (form : String) : Option Pattern :=
  (Pattern.read ("^(?:" ++ form ++ ")$").toList).toOption

/-- Where a form ends in a text that has it, with the groups of its pattern. -/
def matchForm? (pattern? : Option Pattern) (cs : List Char) : Option Pattern.Spot :=
  pattern?.bind fun p => p.matchAt? cs.length false (.ofChars cs)

def boolForm : Option Pattern := formPattern?
  "yes|Yes|YES|no|No|NO|true|True|TRUE|false|False|FALSE|on|On|ON|off|Off|OFF"

def realForm : Option Pattern := formPattern? <|
  "[-+]?(?:[0-9][0-9_]*)\\.[0-9_]*(?:[eE][-+][0-9]+)?|\\.[0-9][0-9_]*(?:[eE][-+][0-9]+)?" ++
  "|[-+]?[0-9][0-9_]*(?::[0-5]?[0-9])+\\.[0-9_]*|[-+]?\\.(?:inf|Inf|INF)|\\.(?:nan|NaN|NAN)"

def integerForm : Option Pattern := formPattern? <|
  "[-+]?0b[0-1_]+|[-+]?0[0-7_]+|[-+]?(?:0|[1-9][0-9_]*)|[-+]?0x[0-9a-fA-F_]+" ++
  "|[-+]?[1-9][0-9_]*(?::[0-5]?[0-9])+"

def mergeForm : Option Pattern := formPattern? "<<"

def nullForm : Option Pattern := formPattern? "~|null|Null|NULL|"

def dayForm : String := "[0-9][0-9][0-9][0-9]-[0-9][0-9]-[0-9][0-9]"

def timestampForm : Option Pattern := formPattern? <|
  dayForm ++ "|[0-9][0-9][0-9][0-9]-[0-9][0-9]?-[0-9][0-9]?(?:[Tt]|[ \\t]+)[0-9][0-9]?:[0-9][0-9]" ++
  ":[0-9][0-9](?:\\.[0-9]*)?(?:[ \\t]*(?:Z|[-+][0-9][0-9]?(?::[0-9][0-9])?))?"

def defaultForm : Option Pattern := formPattern? "="

/-- The tags of the forms, in the order in which they are tried. -/
def forms : List (Option Pattern × Tag) :=
  [(boolForm, .bool), (realForm, .real), (integerForm, .integer), (mergeForm, .merge),
    (nullForm, .null), (timestampForm, .timestamp), (defaultForm, .default),
    (formPattern? "!|&|\\*", .unknown)]

/-- The tag of a plain scalar. -/
def Tag.ofPlain (cs : List Char) : Tag :=
  ((forms.find? fun f => (matchForm? f.1 cs).isSome).map (·.2)).getD .text

/-! ### Reading nodes -/

/-- What is left to read, and the names that are known by now. -/
structure Reading where
  tokens : List Token
  /-- Nodes under names; a name stands without a node while its node is being read. -/
  anchors : List (String × Option Node)
  handles : List (String × String)

abbrev Read := StateT Reading (Except Fault)

namespace Read

def fail {α : Type} : Read α := throw .malformed

def peek : Read (Option Token) := return (← get).tokens.head?

def advance : Read Unit := modify fun r => { r with tokens := r.tokens.tail }

/-- Reads a token if it is the next one. -/
def accept (t : Token) : Read Bool := do
  if (← peek) = some t then do advance; return true else return false

/-- Whether the next token is one of these. -/
def atAny (ts : List Token) : Read Bool := return (← peek).any fun t => ts.contains t

def empty : Node := .scalar (Tag.ofPlain []) ""

/-- The name of a tag. -/
def tagName (t : TagText) : Read String :=
  match t.handle? with
  | none => return t.suffix
  | some h => do
    match (← get).handles.lookup h with
    | some start => return start ++ t.suffix
    | none => fail

def anchor? : Read (Option String) := do
  match ← peek with
  | some (.anchor name) => do advance; return some name
  | _ => return none

def tag? : Read (Option String) := do
  match ← peek with
  | some (.tag t) => do advance; some <$> tagName t
  | _ => return none

/-- The tag and the anchor of a node, in any order. -/
def properties : Read (Option String × Option String) := do
  let first ← anchor?
  let tag ← tag?
  let second ← if first.isNone && tag.isSome then anchor? else pure none
  return (tag, first.or second)

/-- The tag of a collection. -/
def collectionTag (usual : Tag) : Option String → Tag
  | none => usual
  | some "!" => usual
  | some name => .ofName name

def scalarTag (text : String) (isPlain : Bool) : Option String → Tag
  | none => if isPlain then .ofPlain text.toList else .text
  | some "!" => .ofPlain text.toList
  | some name => .ofName name

/-- Reserves a name, which may not be taken. -/
def reserve (name : String) : Read Unit := do
  if ((← get).anchors.lookup name).isSome then fail
  modify fun r => { r with anchors := (name, none) :: r.anchors }

def bindName (name : String) (n : Node) : Read Unit :=
  modify fun r => { r with anchors := (name, some n) :: r.anchors }

def aliased (name : String) : Read Node := do
  match ((← get).anchors.lookup name).join with
  | some n => return n
  | none => fail

mutual

/-- A node. In a block it may be a block itself; as a part of a mapping also a sequence that is not
indented. -/
def node (inBlock unindented : Bool) : Nat → Read Node
  | 0 => fail
  | fuel + 1 => do
    match ← peek with
    | some (.alias name) => do
      advance
      aliased name
    | _ => do
      let (tag, anchor) ← properties
      if let some name := anchor then reserve name
      let n ← content inBlock unindented tag anchor.isSome fuel
      if let some name := anchor then bindName name n
      return n

def content (inBlock unindented : Bool) (tag : Option String) (anchored : Bool) : Nat → Read Node
  | 0 => fail
  | fuel + 1 => do
    match ← peek with
    | some (.scalar text isPlain) => do
      advance
      return .scalar (scalarTag text isPlain tag) text
    | some .flowSequenceStart => do
      advance
      return .sequence (collectionTag .sequence tag) (← flowItems true fuel)
    | some .flowMappingStart => do
      advance
      return .mapping (collectionTag .mapping tag) (← flowEntries true fuel)
    | some .blockSequenceStart =>
      if inBlock then do
        advance
        return .sequence (collectionTag .sequence tag) (← blockItems fuel)
      else missing
    | some .blockMappingStart =>
      if inBlock then do
        advance
        return .mapping (collectionTag .mapping tag) (← blockEntries fuel)
      else missing
    | some .blockEntry =>
      if unindented then return .sequence (collectionTag .sequence tag) (← plainItems fuel)
      else missing
    | _ => missing
where
  /-- Nothing stands here, which only a tag or an anchor allows. -/
  missing : Read Node :=
    if anchored || tag.isSome then return .scalar (scalarTag "" true tag) "" else fail

/-- The items of a sequence in a block, up to its end. -/
def blockItems : Nat → Read (List Node)
  | 0 => fail
  | fuel + 1 => do
    if ← accept .blockEntry then
      let n ← if ← atAny [.blockEntry, .blockEnd] then pure empty else node true false fuel
      return n :: (← blockItems fuel)
    else if ← accept .blockEnd then return []
    else fail

/-- The items of a sequence that is not indented. -/
def plainItems : Nat → Read (List Node)
  | 0 => fail
  | fuel + 1 => do
    if ← accept .blockEntry then
      let n ← if ← atAny [.blockEntry, .key, .value, .blockEnd] then pure empty
        else node true false fuel
      return n :: (← plainItems fuel)
    else return []

/-- What follows a mark of a mapping in a block. -/
def blockPart : Nat → Read Node
  | 0 => fail
  | fuel + 1 => do
    if ← atAny [.key, .value, .blockEnd] then return empty else node true true fuel

def blockEntries : Nat → Read (List (Node × Node))
  | 0 => fail
  | fuel + 1 => do
    if ← accept .key then
      let k ← blockPart fuel
      let v ← if ← accept .value then blockPart fuel else pure empty
      return (k, v) :: (← blockEntries fuel)
    else if ← accept .blockEnd then return []
    else fail

/-- What follows a mark within brackets that end with `last`. -/
def flowPart (last : Token) : Nat → Read Node
  | 0 => fail
  | fuel + 1 => do
    if ← atAny [.flowEntry, last] then return empty else node false false fuel

/-- A key, whose mark is read, and its value. -/
def flowPair (last : Token) : Nat → Read (Node × Node)
  | 0 => fail
  | fuel + 1 => do
    let k ← if ← atAny [.value] then pure empty else flowPart last fuel
    let v ← if ← accept .value then flowPart last fuel else pure empty
    return (k, v)

def flowItems (first : Bool) : Nat → Read (List Node)
  | 0 => fail
  | fuel + 1 => do
    if ← accept .flowSequenceEnd then return []
    if !first then
      if !(← accept .flowEntry) then fail
    if ← accept .key then
      let entry ← flowPair .flowSequenceEnd fuel
      return .mapping .mapping [entry] :: (← flowItems false fuel)
    else if ← accept .flowSequenceEnd then return []
    else
      let n ← node false false fuel
      return n :: (← flowItems false fuel)

def flowEntries (first : Bool) : Nat → Read (List (Node × Node))
  | 0 => fail
  | fuel + 1 => do
    if ← accept .flowMappingEnd then return []
    if !first then
      if !(← accept .flowEntry) then fail
    if ← accept .key then
      let entry ← flowPair .flowMappingEnd fuel
      return entry :: (← flowEntries false fuel)
    else if ← accept .flowMappingEnd then return []
    else
      let k ← node false false fuel
      return (k, empty) :: (← flowEntries false fuel)

end

/-- Reads the directives before a document. A version must be a first one, and neither it nor a
handle is given twice. -/
def directives (versioned : Bool) : Nat → Read Bool
  | 0 => return false
  | fuel + 1 => do
    match ← peek with
    | some (.directive d) =>
      advance
      match d with
      | .version major _ => if versioned || major != 1 then fail else directives true fuel
      | .handle name start => do
        if ((← get).handles.lookup name).isSome then fail
        modify fun r => { r with handles := (name, start) :: r.handles }
        directives versioned fuel
      | .unknown => directives versioned fuel
    | _ => return versioned

def commonHandles : List (String × String) := [("!", "!"), ("!!", Tag.commonStart)]

/-- Skips marks of the end of a document. -/
def skipEnds : Nat → Read Unit
  | 0 => return ()
  | fuel + 1 => do if ← accept .documentEnd then skipEnds fuel

/-- The document after a mark of its start; it may be empty. -/
def documentBody (fuel : Nat) : Read Node := do
  match ← peek with
  | some (.directive _) => return empty
  | _ =>
    if ← atAny [.documentStart, .documentEnd, .streamEnd] then return empty else node true false fuel

/-- The first document, with its directives. -/
def document (fuel : Nat) : Read (Option Node) := do
  let explicit ← match ← peek with
    | some (.directive _) => pure true
    | _ => atAny [.documentStart]
  if explicit then
    let _ ← directives false fuel
    modify fun r => { r with handles := r.handles ++ commonHandles }
    if ← accept .documentStart then some <$> documentBody fuel else fail
  else if ← atAny [.streamEnd] then return none
  else
    modify fun r => { r with handles := commonHandles }
    some <$> node true false fuel

/-- The only document; another one behind it is refused. -/
def onlyDocument (fuel : Nat) : Read (Option Node) := do
  let n? ← document fuel
  skipEnds fuel
  if ← accept .streamEnd then return n? else fail

end Read

/-- The node of a document, if it holds any. -/
def Node.ofTokens (ts : List Token) : Except Fault (Option Node) :=
  Prod.fst <$> (Read.onlyDocument (6 * ts.length + 16)).run ⟨ts, [], []⟩

end NoteQuery.Yaml
