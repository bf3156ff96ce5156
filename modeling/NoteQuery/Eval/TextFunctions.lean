import NoteQuery.Eval.Failure
import NoteQuery.Pattern.Template
import NoteQuery.Text.Search
import NoteQuery.Value.Compare
import NoteQuery.Value.Text

/-!
Functions on texts. Other values count as the text they are displayed as, except where a pattern is
involved: patterns apply to texts only.
-/

namespace NoteQuery.TextFunction
set_option autoImplicit false
open NoteQuery.Text

def onText (f : List Char → List Char) (v : Value) : Outcome Value := do
  return .text (String.ofList (f (← v.display).toList))

def lower (v : Value) : Outcome Value := onText lowerChars v

def upper (v : Value) : Outcome Value := onText upperChars v

def startsWith (v start : Value) : Outcome Value := do
  return .bool (Text.startsWith (← start.display).toList (← v.display).toList)

def endsWith (v ending : Value) : Outcome Value := do
  return .bool (Text.endsWith (← ending.display).toList (← v.display).toList)

/-- The pieces of a text between separators, or its characters where the separator is empty. -/
def splitChars (separator cs : List Char) : List (List Char) :=
  if separator.isEmpty then cs.map fun c => [c] else pieces separator cs

def split (v separator : Value) : Outcome Value := do
  let cs := (← v.display).toList
  let parts := splitChars (← separator.display).toList cs
  return .array (parts.map fun p => .text (String.ofList p))

/-- Writes a separator between the items of an array. -/
def join (v separator : Value) : Outcome Value := do
  match v with
  | .array items =>
    let between := (← separator.display).toList
    let parts ← Value.displayAll items
    return .text (String.ofList (joinWith between (parts.map String.toList)))
  | v => return .text (← v.display)

/-- The position that an argument names: a number without its fraction, or a default. -/
def position (v : Value) (default : Int) : Except RangeError Int :=
  match v with
  | .number n => if n.isNaN then .ok default else n.truncate
  | _ => .ok default

/-- A position, moved into a text of `size` characters. -/
def clamp (size : Nat) (p : Int) : Nat := min p.toNat size

/-- The part between two positions, whichever comes first. -/
def slice (start stop : Int) (cs : List Char) : List Char :=
  let a := clamp cs.length start
  let b := clamp cs.length stop
  (cs.take (max a b)).drop (min a b)

def substring (v start stop : Value) : Outcome Value := do
  let cs := (← v.display).toList
  let a ← position start 0
  let b ← position stop cs.length
  return .text (String.ofList (slice a b cs))

/-- Reads a pattern; none where it is malformed. -/
def pattern? (text : String) : Outcome (Option Pattern) :=
  match Pattern.read text.toList with
  | .ok p => .ok (some p)
  | .error .malformed => .ok none
  | .error .repetitionTooLarge => .error (.outOfRange .repetitionTooLarge)
  | .error .mixedClasses => .error .mixedClasses

/-- Replaces all matches; none where the replacement is malformed. -/
def replaced? (p : Pattern) (replacement text : String) : Outcome (Option String) :=
  match p.substitute replacement.toList text.toList with
  | .ok cs => .ok (some (String.ofList cs))
  | .error .malformed => .ok none
  | .error (.unknownGroup name) => .error (.unknownGroup name)

/-- Replaces the matches of a pattern; what is malformed is a failure. -/
def replace (v pattern replacement : Value) : Outcome Value := do
  match v, pattern with
  | .text s, .text source =>
    match ← pattern? source with
    | none => throw (.badPattern source)
    | some p =>
      match ← replaced? p (← replacement.display) s with
      | none => throw (.badReplacement replacement.mention)
      | some t => return .text t
  | .text s, _ => return .text s
  | v, _ => return .text (← v.display)

/-- Replaces the matches of a pattern; what is malformed leaves the text as it is. -/
def regexReplace (v pattern replacement : Value) : Outcome Value := do
  match v, pattern with
  | .text s, .text source =>
    match ← pattern? source with
    | none => return .text s
    | some p => return .text ((← replaced? p (← replacement.display) s).getD s)
  | v, _ => return .text (← v.display)

def regexMatch (v pattern : Value) : Outcome Value := do
  match v, pattern with
  | .text s, .text source =>
    match ← pattern? source with
    | none => return .bool false
    | some p => return .bool (p.occursIn s.toList)
  | _, _ => return .bool false

end NoteQuery.TextFunction
