import NoteQuery.Text.Quoted
import NoteQuery.Value.Basic

/-!
Why an evaluation has no value. Most failures are local: they concern the row at hand and leave a
query standing. The others end whatever is being done.
-/

namespace NoteQuery
set_option autoImplicit false

inductive Failure where
  | notNumeric (symbol : String) (kind : Kind)
  | unknownFunction (name : String)
  | missingArgument (function parameter : String)
  | tooManyArguments (function : String)
  | divisionByZero
  | remainderByZero
  /-- A computation of an operator or a function, by its name, left its range. -/
  | arithmetic (place : String) (cause : RangeError)
  | badPattern (pattern : String)
  | badReplacement (replacement : String)
  | outOfRange (cause : RangeError)
  | mixedClasses
  | unknownGroup (name : String)
  | unknownUnit (letter : Char)
  /-- Digits without place value where a position is needed. -/
  | badPosition (digits : String)
  | tooDeep
  deriving DecidableEq

namespace Failure

/-- Whether a failure concerns only the row at hand. -/
def isLocal : Failure → Bool
  | outOfRange _ => false
  | mixedClasses => false
  | unknownGroup _ => false
  | unknownUnit _ => false
  | badPosition _ => false
  | tooDeep => false
  | _ => true

def message : Failure → String
  | notNumeric symbol kind => symbol ++ " operator requires numeric operands, got " ++ kind.name
  | unknownFunction name => "Unknown function: " ++ name
  | missingArgument function parameter =>
    "Invalid arguments for " ++ function ++ "(): missing a required argument: '" ++ parameter ++ "'"
  | tooManyArguments function =>
    "Invalid arguments for " ++ function ++ "(): too many positional arguments"
  | divisionByZero => "Division by zero"
  | remainderByZero => "Modulo by zero"
  | arithmetic place cause => "Arithmetic error in " ++ place ++ ": " ++ cause.message
  | badPattern pattern => "Invalid regular expression: " ++ pattern
  | badReplacement replacement => "Invalid replacement: " ++ replacement
  | outOfRange cause => cause.message
  | mixedClasses => "ASCII and UNICODE flags are incompatible"
  | unknownGroup name => "unknown group name " ++ Text.quoted name
  | unknownUnit letter => Text.quoted (String.singleton letter)
  | badPosition digits => "invalid literal for int() with base 10: " ++ Text.quoted digits
  | tooDeep => "functions are applied too deep in one another"

end Failure

/-- The result of an evaluation. -/
abbrev Outcome (α : Type) := Except Failure α

/-- Computations that leave their range fail where they stand. -/
instance : MonadLift (Except RangeError) (Except Failure) where
  monadLift := Except.mapError .outOfRange

end NoteQuery
