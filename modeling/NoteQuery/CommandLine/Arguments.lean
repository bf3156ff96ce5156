import NoteQuery.CommandLine.Scan
import NoteQuery.Log.Basic
import NoteQuery.Number.Numeral
import NoteQuery.Settings.Load
import NoteQuery.Text.Similar

/-!
The arguments of the program: options for all commands, the name of a command, and the options and
words of that command. What is not given is taken from the settings.
-/

namespace NoteQuery.CommandLine
set_option autoImplicit false

inductive UsageFault where
  | scan (fault : ScanFault)
  | missingCommand
  | noSuchCommand (name : String)
  | notInteger (text : String)
  | missingQuery
  deriving DecidableEq

def queryCommand : String := "query"

namespace UsageFault

def message : UsageFault → String
  | scan (.noSuchOption name) => "No such option " ++ Text.quoted name ++ "."
  | scan (.missingValue name) => "Option " ++ Text.quoted name ++ " requires an argument."
  | scan (.unwantedValue name) => "Option " ++ Text.quoted name ++ " does not take a value."
  | missingCommand => "Missing command."
  | noSuchCommand name =>
    let refusal := "No such command " ++ Text.quoted name
    if Text.isSimilar queryCommand.toList name.toList then
      refusal ++ ". Did you mean " ++ Text.quoted queryCommand ++ "?"
    else refusal ++ "."
  | notInteger s => Text.quoted s ++ " is not a valid integer."
  | missingQuery => ""

end UsageFault

/-! ### Options -/

inductive CommonOption where
  | verbose
  | help
  deriving DecidableEq

def commonOptions : OptionTable CommonOption where
  long?
    | "--verbose" => some .verbose
    | "--help" => some .help
    | _ => none
  short?
    | 'v' => some .verbose
    | _ => none
  takesValue _ := false

inductive QueryOption where
  | config
  | color
  | noColor
  | maxResults
  | out
  | help
  deriving DecidableEq

def queryOptions : OptionTable QueryOption where
  long?
    | "--config" => some .config
    | "--color" => some .color
    | "--no-color" => some .noColor
    | "--max-results" => some .maxResults
    | "--out" => some .out
    | "--help" => some .help
    | _ => none
  short?
    | 'n' => some .maxResults
    | _ => none
  takesValue
    | .config => true
    | .maxResults => true
    | .out => true
    | _ => false

/-! ### Arguments -/

structure QueryArguments where
  query : String
  paths : List String
  config : String
  color? : Option Bool
  maxResults : Int
  out : String
  deriving DecidableEq

/-- What the program is asked for. -/
inductive Request where
  | help
  | query (arguments : QueryArguments)
  deriving DecidableEq

/-- The value of the last option of those that are wanted. -/
def lastGiven? {α β : Type} (given : List (α × String)) (wanted : α × String → Option β) : Option β :=
  (given.filterMap wanted).getLast?

/-- The value that is given last for an option. -/
def valueOf? (given : List (QueryOption × String)) (option : QueryOption) : Option String :=
  lastGiven? given fun o => if o.1 = option then some o.2 else none

/-- Whether color was asked for or refused last. -/
def colorGiven? (given : List (QueryOption × String)) : Option Bool :=
  lastGiven? given fun o =>
    match o.1 with
    | .color => some true
    | .noColor => some false
    | _ => none

def readCount (s : String) : Except UsageFault Int :=
  match Numeral.integer? s.toList with
  | some n => .ok n
  | none => .error (.notInteger s)

namespace QueryArguments

/-- The arguments of a scan, and of the settings where they are not given. -/
def ofScan (settings : Settings) (s : Scan QueryOption) : Except UsageFault QueryArguments := do
  let given? ← (valueOf? s.given .maxResults).mapM readCount
  match s.words with
  | [] => throw .missingQuery
  | query :: paths =>
    return {
      query, paths
      config := (valueOf? s.given .config).getD Settings.defaultName
      color? := (colorGiven? s.given).or settings.color?
      maxResults := given?.getD (settings.maxResults?.getD 0)
      out := (valueOf? s.given .out).getD ((settings.format?.getD .table).name) }

end QueryArguments

/-- What the program is asked for, and how much it is to report. -/
structure Invocation where
  settings : Settings
  verbosity : Verbosity
  request : Request
  deriving DecidableEq

namespace Invocation

def verbosityOf (settings : Settings) (s : Scan CommonOption) : Verbosity :=
  let count := (s.given.filter fun o => o.1 = .verbose).length
  .ofCount (if count = 0 then if settings.verbose? = some true then 1 else 0 else count)

def requestOf (settings : Settings) (args : List String) : Except UsageFault Request := do
  let s ← (scan queryOptions true args).mapError .scan
  if s.given.any fun o => o.1 = .help then return .help
  return .query (← QueryArguments.ofScan settings s)

def ofArgs (settings : Settings) (args : List String) : Except UsageFault Invocation := do
  let s ← (scan commonOptions false args).mapError .scan
  let verbosity := verbosityOf settings s
  if args.isEmpty || s.given.any fun o => o.1 = .help then return ⟨settings, verbosity, .help⟩
  match s.words with
  | [] => throw .missingCommand
  | command :: args =>
    if command = queryCommand then return ⟨settings, verbosity, ← requestOf settings args⟩
    else throw (.noSuchCommand command)

end Invocation
end NoteQuery.CommandLine
