import NoteQuery.Yaml.Scalar

/-! Tokens of a document. Those that open and close blocks stand for indentation. -/

namespace NoteQuery.Yaml
set_option autoImplicit false

/-- A tag as it is written: a handle that stands for the start of its name, and the rest. -/
structure TagText where
  handle? : Option String
  suffix : String
  deriving DecidableEq

inductive Directive where
  | version (major minor : Nat)
  | handle (name start : String)
  | unknown
  deriving DecidableEq

inductive Token where
  | streamEnd
  | directive (d : Directive)
  | documentStart
  | documentEnd
  | blockSequenceStart
  | blockMappingStart
  | blockEnd
  | flowSequenceStart
  | flowMappingStart
  | flowSequenceEnd
  | flowMappingEnd
  | key
  | value
  | blockEntry
  | flowEntry
  | alias (name : String)
  | anchor (name : String)
  | tag (t : TagText)
  | scalar (text : String) (isPlain : Bool)
  deriving DecidableEq

/-! ### Names, tags and directives -/

def isNameChar (c : Char) : Bool := c.isAlphanum || c == '-' || c == '_'

/-- The name of an anchor, from the character behind its indicator on. -/
def anchorName (c : Cursor) : Except Fault (String × Cursor) :=
  let (name, c) := c.span isNameChar
  let ends := c.peek.all fun x => isGap x || isBreak x || "?:,]\x7d%@`".toList.contains x
  if name.isEmpty || !ends then .error .malformed else .ok (String.ofList name, c)

def isAddressChar (c : Char) : Bool :=
  c.isAlphanum || "-;/?:@&=+$,_.!~*'()[]%".toList.contains c

/-- The bytes that percent signs with two digits stand for. -/
def percentBytes : List Char → Option (List UInt8 × Nat)
  | '%' :: a :: b :: rest => do
    let high ← hexDigit? a
    let low ← hexDigit? b
    let (bytes, n) := (percentBytes rest).getD ([], 0)
    return ((high * 16 + low).toUInt8 :: bytes, n + 3)
  | '%' :: _ => none
  | _ => some ([], 0)

/-- An address with its escapes read. -/
def addressFrom : Nat → List Char → Cursor → Except Fault (List Char × Cursor)
  | 0, text, c => .ok (text, c)
  | fuel + 1, text, c =>
    match c.peek with
    | some '%' =>
      match percentBytes c.rest with
      | none => .error .malformed
      | some (bytes, n) =>
        match String.fromUTF8? ⟨bytes.toArray⟩ with
        | none => .error .malformed
        | some s => addressFrom fuel (text ++ s.toList) (c.skip n)
    | some x => if isAddressChar x then addressFrom fuel (text ++ [x]) c.next else .ok (text, c)
    | none => .ok (text, c)

def address (c : Cursor) : Except Fault (String × Cursor) := do
  let (text, after) ← addressFrom (c.rest.length + 1) [] c
  if text.isEmpty then throw .malformed
  return (String.ofList text, after)

/-- A handle: an exclamation mark, or a name between two of them. -/
def tagHandle (c : Cursor) : Except Fault (String × Cursor) :=
  if c.peek != some '!' then .error .malformed
  else if c.peekAt 1 == some ' ' then .ok ("!", c.next)
  else
    let (name, after) := c.next.span isNameChar
    if after.peek == some '!' then .ok ("!" ++ String.ofList name ++ "!", after.next)
    else .error .malformed

/-- Whether the tag at the head of a text has a handle of its own. -/
def hasHandle (cs : List Char) : Bool :=
  (cs.takeWhile fun c => !(c == ' ' || isBreak c)).contains '!'

/-- The tag that starts here. -/
def readTag (c : Cursor) : Except Fault (TagText × Cursor) := do
  let (t, c) ← match c.peekAt 1 with
    | some '<' => do
      let (suffix, c) ← address (c.skip 2)
      if c.peek != some '>' then throw .malformed
      pure (TagText.mk none suffix, c.next)
    | x =>
      if endsWord x then pure (TagText.mk none "!", c.next)
      else do
        let (handle, c) ← if hasHandle c.next.rest then tagHandle c else pure ("!", c.next)
        let (suffix, c) ← address c
        pure (TagText.mk (some handle) suffix, c)
  if endsLineOrWord c.peek then return (t, c) else throw .malformed

/-- A number of a version, and the place behind it. -/
def versionNumber (c : Cursor) : Except Fault (Nat × Cursor) :=
  let (digits, c) := c.span Char.isDigit
  if digits.isEmpty then .error .malformed
  else .ok (digits.foldl (fun n d => n * 10 + (d.toNat - 48)) 0, c)

def skipSpaces (c : Cursor) : Cursor := c.skipWhile (· == ' ')

def directiveBody (name : String) (c : Cursor) : Except Fault (Directive × Cursor) :=
  if name = "YAML" then do
    let (major, c) ← versionNumber (skipSpaces c)
    if c.peek != some '.' then throw .malformed
    let (minor, c) ← versionNumber c.next
    if endsLineOrWord c.peek then return (.version major minor, c) else throw .malformed
  else if name = "TAG" then do
    let (handle, c) ← tagHandle (skipSpaces c)
    if c.peek != some ' ' then throw .malformed
    let (start, c) ← address (skipSpaces c)
    if endsLineOrWord c.peek then return (.handle handle start, c) else throw .malformed
  else .ok (.unknown, c.skipWhile fun x => !isBreak x)

/-- The directive that starts here, with the end of its line. -/
def readDirective (c : Cursor) : Except Fault (Directive × Cursor) := do
  let (name, c) := c.next.span isNameChar
  if name.isEmpty || !endsLineOrWord c.peek then throw .malformed
  let (d, c) ← directiveBody (String.ofList name) c
  match c.skipRestOfLine? with
  | none => throw .malformed
  | some c => return (d, c)

end NoteQuery.Yaml
