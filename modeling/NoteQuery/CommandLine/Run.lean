import NoteQuery.CommandLine.Arguments
import NoteQuery.Note.Load
import NoteQuery.Output.Printed

/-!
Running a command. Files are looked up by name; all that a command says of them is a function of what
is found. What a command reports goes before its output, also where it fails.
-/

namespace NoteQuery.CommandLine
set_option autoImplicit false

inductive CommandFault where
  | settings (fault : SettingsFault)
  | usage (fault : UsageFault)
  | negativeLimit
  | unsupportedFormat (name : String)
  | query (fault : QueryFault)
  | missingPath (name : String)
  | note (fault : Note.Fault)
  | outOfRange (cause : RangeError)

namespace CommandFault

def message : CommandFault → String
  | settings f => f.message
  | usage f => f.message
  | negativeLimit => "--max-results must be non-negative"
  | unsupportedFormat name => OutputFormat.unsupportedMessage name
  | query f => f.message
  | missingPath name => Note.notFoundMessage name
  | note f => f.message
  | outOfRange e => e.message

/-- What the program tells its caller: two for a mistake in what was asked, one for a failure. -/
def exitCode : CommandFault → Nat
  | settings (.undecodable _) => 1
  | query f => if f.isMistake then 2 else 1
  | note _ => 1
  | outOfRange _ => 1
  | _ => 2

end CommandFault

/-! ### Reports -/

def truthText (b : Bool) : String := if b then "True" else "False"

def listText (items : List String) : String := "[" ++ ", ".intercalate (items.map Text.quoted) ++ "]"

/-- The settings that a command takes, under the names of their options. -/
def settingEntries (s : Settings) : List String :=
  let color := s.color?.map fun b => "--color/--no-color=" ++ truthText b
  let most := s.maxResults?.map fun n => "--max-results=" ++ toString n
  let format := s.format?.map fun f => "--out=" ++ Text.quoted f.name
  color.toList ++ most.toList ++ format.toList

def argumentEntries (a : QueryArguments) : List String :=
  ["color_flag=" ++ (a.color?.map truthText).getD "None",
    "config=" ++ Text.quoted a.config,
    "max_results=" ++ toString a.maxResults,
    "out=" ++ Text.quoted a.out,
    "paths=" ++ if a.paths.isEmpty then "None" else listText a.paths,
    "query=" ++ Text.quoted a.query]

abbrev Work := Logged CommandFault

def report (title : String) (entries : List String) : Work Unit :=
  Logged.info (title ++ " (" ++ queryCommand ++ "): " ++ ", ".intercalate entries)

/-! ### The query command -/

/-- How files are found. -/
abbrev Look := Path → Except PathFault FileNode

/-- A part of the work whose faults are those of the command. -/
def part {ε α : Type} (fault : ε → CommandFault) (x : Logged ε α) : Work α :=
  let (r, log) := x.result
  Logged.ofResult (r.mapError fault, log)

def settled {ε α : Type} (fault : ε → CommandFault) (x : Except ε α) : Work α :=
  Logged.ofResult (x.mapError fault, [])

/-- Loads the notes, runs the query over them, and prepares the output. -/
def runQuery (look : Look) (terminal : Bool) (now : Moment) (a : QueryArguments) :
    Work (List Output) := do
  if a.maxResults < 0 then throw .negativeLimit
  let some format := OutputFormat.ofName? a.out | throw (.unsupportedFormat a.out)
  let q ← settled (.query ∘ .clause) (Query.read a.query)
  let sources ← settled .missingPath (Note.sources look a.paths)
  let rows ← part .note (Note.loadAll sources)
  let result ← part .query (q.run now rows)
  let coloring := Coloring.choose a.color? terminal
  settled .outOfRange ((result.capped a.maxResults.toNat).outputs format coloring)

def runReported (look : Look) (terminal : Bool) (now : Moment) (s : Settings) (a : QueryArguments) :
    Work (List Output) := do
  let entries := settingEntries s
  if !entries.isEmpty then report "Config defaults applied" entries
  report "Command arguments" (argumentEntries a)
  runQuery look terminal now a

/-! ### The program -/

/-- How the program is used. -/
def helpText : String :=
  "Usage: notedql [-v] query [OPTIONS] QUERY [PATH]...\n\n" ++
  "Run TABLE, LIST and TASK queries over a vault of markdown notes.\n\n" ++
  "  --config FILE          Config file name to load from current directory\n" ++
  "  --color / --no-color   Force colored output\n" ++
  "  -n, --max-results N    Maximum number of results to display (0 for all)\n" ++
  "  --out TEXT             Output format: table or json\n" ++
  "  -v, --verbose          Log progress; repeat to also log evaluation failures\n"

/-- What the program writes, the warnings that are not part of it, and the fault that ended it. -/
structure Reply where
  text : String
  warnings : List String
  fault? : Option CommandFault

def textOfLines (ls : List String) : String := String.join (ls.map (· ++ "\n"))

namespace Invocation

/-- The invocation of arguments and of what the name of the settings leads to. -/
def read (settingsNode : Except PathFault FileNode) (args : List String) :
    Except CommandFault Invocation := do
  let settings ← (Settings.load settingsNode).mapError .settings
  (ofArgs settings args).mapError .usage

/-- The names of the files that an invocation asks for. -/
def paths (i : Invocation) : List String :=
  match i.request with
  | .help => []
  | .query a => if a.paths.isEmpty then ["."] else a.paths

def run (i : Invocation) (look : Look) (terminal : Bool) (now : Moment) : Reply :=
  match i.request with
  | .help => ⟨helpText, [], none⟩
  | .query a =>
    let (r, log) := (runReported look terminal now i.settings a).result
    let reports := textOfLines (log.filterMap i.verbosity.shown?)
    let warnings := log.filterMap i.verbosity.aside?
    match r with
    | .ok outputs => ⟨reports ++ Output.printedText outputs, warnings, none⟩
    | .error f => ⟨reports, warnings, some f⟩

end Invocation

/-- Runs the program on its arguments. -/
def run (look : Look) (terminal : Bool) (now : Moment) (args : List String) : Reply :=
  match Invocation.read (look (Path.ofText (Settings.nameIn args))) args with
  | .error f => ⟨"", [], some f⟩
  | .ok i => i.run look terminal now

end NoteQuery.CommandLine
