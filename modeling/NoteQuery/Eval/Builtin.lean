import NoteQuery.Eval.Failure
import NoteQuery.Text.Case

/-!
The functions that expressions can call, by name whatever its case, and the arguments they take.
-/

namespace NoteQuery
set_option autoImplicit false

inductive Builtin where
  | date
  | dateFormat
  | duration
  | contains
  | length
  | join
  | list
  | sort
  | reverse
  | filter
  | map
  | lower
  | upper
  | replace
  | split
  | regexMatch
  | regexReplace
  | substring
  | startsWith
  | endsWith
  | default
  | choice
  | round
  | min
  | max
  | sum
  | average
  deriving DecidableEq

/-- The parameters of a function: those that need an argument, and how many more there are. -/
structure Signature where
  required : List String
  /-- The number of optional parameters; none where there is no bound. -/
  optional : Option Nat

namespace Builtin

def ofName? (name : String) : Option Builtin :=
  match Text.lower name with
  | "date" => some date
  | "dateformat" => some dateFormat
  | "dur" => some duration
  | "contains" => some contains
  | "length" => some length
  | "join" => some join
  | "list" => some list
  | "sort" => some sort
  | "reverse" => some reverse
  | "filter" => some filter
  | "map" => some map
  | "lower" => some lower
  | "upper" => some upper
  | "replace" => some replace
  | "split" => some split
  | "regexmatch" => some regexMatch
  | "regexreplace" => some regexReplace
  | "substring" => some substring
  | "startswith" => some startsWith
  | "endswith" => some endsWith
  | "default" => some default
  | "choice" => some choice
  | "round" => some round
  | "min" => some min
  | "max" => some max
  | "sum" => some sum
  | "average" => some average
  | _ => none

def signature : Builtin → Signature
  | date => ⟨["value"], some 0⟩
  | dateFormat => ⟨["value", "date_format"], some 0⟩
  | duration => ⟨["value"], some 0⟩
  | contains => ⟨["container", "value"], some 0⟩
  | length => ⟨["value"], some 0⟩
  | join => ⟨["values"], some 1⟩
  | list => ⟨[], none⟩
  | sort => ⟨["values"], some 1⟩
  | reverse => ⟨["values"], some 0⟩
  | filter => ⟨["values"], some 1⟩
  | map => ⟨["values"], some 1⟩
  | lower => ⟨["value"], some 0⟩
  | upper => ⟨["value"], some 0⟩
  | replace => ⟨["value", "pattern"], some 1⟩
  | split => ⟨["value"], some 1⟩
  | regexMatch => ⟨["value", "pattern"], some 0⟩
  | regexReplace => ⟨["value", "pattern"], some 1⟩
  | substring => ⟨["value"], some 2⟩
  | startsWith => ⟨["value", "prefix"], some 0⟩
  | endsWith => ⟨["value", "suffix"], some 0⟩
  | default => ⟨["value", "fallback"], some 0⟩
  | choice => ⟨["condition", "when_true", "when_false"], some 0⟩
  | round => ⟨["value"], some 1⟩
  | min => ⟨[], none⟩
  | max => ⟨[], none⟩
  | sum => ⟨[], none⟩
  | average => ⟨[], none⟩

end Builtin

namespace Signature

/-- The first parameter that is left without an argument. -/
def missing? (s : Signature) (count : Nat) : Option String := s.required[count]?

def isExceededBy (s : Signature) (count : Nat) : Bool :=
  s.optional.any fun n => s.required.length + n < count

/-- Checks a number of arguments; `name` is the function as it was called. -/
def check (s : Signature) (name : String) (count : Nat) : Outcome Unit :=
  match s.missing? count with
  | some parameter => .error (.missingArgument name parameter)
  | none => if s.isExceededBy count then .error (.tooManyArguments name) else .ok ()

end Signature
end NoteQuery
