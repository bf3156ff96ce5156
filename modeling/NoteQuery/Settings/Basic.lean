import NoteQuery.Json.Reader
import NoteQuery.Output.Basic

/-!
Options that hold where the command line does not set them. They are read from the `defaults` of a
document, and anything in it that is no option makes the whole document malformed.
-/

namespace NoteQuery
set_option autoImplicit false

structure Settings where
  color? : Option Bool := none
  maxResults? : Option Nat := none
  format? : Option OutputFormat := none
  verbose? : Option Bool := none
  deriving DecidableEq, Inhabited

/-- Named members of a document. -/
abbrev Members := List (String × Json)

namespace Settings

/-- What a member says of a switch: nothing where it is absent; it may not be anything else than
true or false. -/
def switch? (ms : Members) (key : String) : Option (Option Bool) :=
  match ms.lookup key with
  | none => some none
  | some (.bool b) => some (some b)
  | some _ => none

/-- Color can be asked for or refused, but not both. -/
def readColor? (ms : Members) : Option (Option Bool) := do
  let on? ← switch? ms "--color"
  let off? ← switch? ms "--no-color"
  if off? = some true then if on? = some true then none else return some false
  else return on?

/-- The settings with one more member. -/
def withMember? (s : Settings) (m : String × Json) : Option Settings :=
  match m with
  | ("--color", _) => some s
  | ("--no-color", _) => some s
  | ("--max-results", .number (.int n)) =>
    if n < 0 then none else some { s with maxResults? := some n.toNat }
  | ("--out", .text name) =>
    (OutputFormat.all.find? fun f => f.name == name).map fun f => { s with format? := some f }
  | ("--verbose", .bool b) => some { s with verbose? := some b }
  | _ => none

/-- The settings that members under distinct names make. -/
def ofMembers? (ms : Members) : Option Settings := do
  let color? ← readColor? ms
  ms.foldlM withMember? { color? }

/-- The `defaults` of a document that holds nothing else. -/
def sectionOf? (ms : Members) : Option Members :=
  if ms.any fun m => m.1 != "defaults" then none
  else match ms.lookup "defaults" with
    | none => some []
    | some (.object ms) => some ms
    | some _ => none

def ofDocument? : Json → Option Settings
  | .object ms => sectionOf? ms >>= ofMembers?
  | _ => none

/-- The settings under the names of the parameters that they stand for. -/
def members (s : Settings) : Members :=
  let color := s.color?.map fun b => ("color_flag", Json.bool b)
  let most := s.maxResults?.map fun n => ("max_results", Json.number (.int n))
  let format := s.format?.map fun f => ("out", Json.text f.name)
  let verbose := s.verbose?.map fun b => ("verbose", Json.bool b)
  color.toList ++ most.toList ++ format.toList ++ verbose.toList

/-- Members that are parameters of a command; how much is logged is none. -/
def forCommand (ms : Members) : Members := ms.filter fun m => m.1 != "verbose"

end Settings
end NoteQuery
