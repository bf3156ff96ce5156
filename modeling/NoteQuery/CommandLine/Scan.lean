import NoteQuery.Text.Search

/-!
Reading the arguments of a command: options, which start with a dash, and words. A long option takes
its value behind an equals sign or from the next argument. Short options may be written together,
and the rest of the argument is the value of the first of them that takes one.
-/

namespace NoteQuery.CommandLine
set_option autoImplicit false
open NoteQuery.Text

inductive ScanFault where
  | noSuchOption (name : String)
  | missingValue (name : String)
  | unwantedValue (name : String)
  deriving DecidableEq

/-- The options that a command knows. -/
structure OptionTable (α : Type) where
  long? : String → Option α
  short? : Char → Option α
  takesValue : α → Bool

/-- Options with their values, in the order in which they are given, and the words. -/
structure Scan (α : Type) where
  given : List (α × String)
  words : List String
  deriving DecidableEq

/-- What one argument gives: options, and one that still needs a value, with its name. -/
structure ArgOptions (α : Type) where
  given : List (α × String)
  open? : Option (α × String)

variable {α : Type}

def isOption (arg : String) : Bool :=
  match arg.toList with
  | '-' :: _ :: _ => true
  | _ => false

/-- The short options in one argument, after its dash. -/
def shortOptions (t : OptionTable α) : List Char → Except ScanFault (ArgOptions α)
  | [] => .ok ⟨[], none⟩
  | c :: cs =>
    match t.short? c with
    | none => .error (.noSuchOption (String.ofList ['-', c]))
    | some o =>
      if t.takesValue o then
        if cs.isEmpty then .ok ⟨[], some (o, String.ofList ['-', c])⟩
        else .ok ⟨[(o, String.ofList cs)], none⟩
      else do
        let rest ← shortOptions t cs
        return ⟨(o, "") :: rest.given, rest.open?⟩

/-- An argument cut at its first equals sign. -/
def cutAtEquals (arg : String) : String × Option String :=
  match cut? ['='] arg.toList with
  | some (name, value) => (String.ofList name, some (String.ofList value))
  | none => (arg, none)

/-- The options in one argument. -/
def argOptions (t : OptionTable α) (arg : String) : Except ScanFault (ArgOptions α) :=
  let (name, value?) := cutAtEquals arg
  match t.long? name with
  | some o =>
    if t.takesValue o then
      match value? with
      | some v => .ok ⟨[(o, v)], none⟩
      | none => .ok ⟨[], some (o, name)⟩
    else if value?.isSome then .error (.unwantedValue name)
    else .ok ⟨[(o, "")], none⟩
  | none =>
    if startsWith ['-', '-'] arg.toList then .error (.noSuchOption name)
    else shortOptions t (arg.toList.drop 1)

/-- Reads arguments. Where options and words are not `mixed`, all that follows the first word is
words; two dashes alone end the options in any case. -/
def scan (t : OptionTable α) (mixed : Bool) : List String → Except ScanFault (Scan α)
  | [] => .ok ⟨[], []⟩
  | arg :: args =>
    if arg = "--" then .ok ⟨[], args⟩
    else if isOption arg then do
      let o ← argOptions t arg
      match o.open? with
      | none => do
        let s ← scan t mixed args
        return { s with given := o.given ++ s.given }
      | some (option, name) =>
        match args with
        | [] => throw (.missingValue name)
        | value :: args => do
          let s ← scan t mixed args
          return { s with given := o.given ++ (option, value) :: s.given }
    else if mixed then do
      let s ← scan t mixed args
      return { s with words := arg :: s.words }
    else .ok ⟨[], arg :: args⟩

end NoteQuery.CommandLine
