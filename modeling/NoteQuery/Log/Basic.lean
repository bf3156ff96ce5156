/-! What a program reports while it runs, and how much of it is shown. -/

namespace NoteQuery
set_option autoImplicit false

inductive LogLevel where
  | warning
  | info
  | debug
  deriving DecidableEq

namespace LogLevel

def name : LogLevel → String
  | warning => "WARNING"
  | info => "INFO"
  | debug => "DEBUG"

end LogLevel

structure LogLine where
  level : LogLevel
  text : String
  deriving DecidableEq

namespace LogLine

/-- The line with its level. -/
def labelled (l : LogLine) : String := l.level.name ++ " " ++ l.text

end LogLine

/-- A computation that keeps a log, also where it fails. -/
abbrev Logged (ε : Type) := ExceptT ε (StateM (List LogLine))

namespace Logged

variable {ε α : Type}

def note (level : LogLevel) (text : String) : Logged ε Unit :=
  modify fun log => log ++ [⟨level, text⟩]

def warning (text : String) : Logged ε Unit := note .warning text

def info (text : String) : Logged ε Unit := note .info text

def debug (text : String) : Logged ε Unit := note .debug text

/-- The result with its log. -/
def result (x : Logged ε α) : Except ε α × List LogLine := StateT.run (ExceptT.run x) []

/-- A result that comes with a log. -/
def ofResult (r : Except ε α × List LogLine) : Logged ε α :=
  ExceptT.mk fun log => (r.1, log ++ r.2)

end Logged

inductive Verbosity where
  | quiet
  | progress
  | detailed
  deriving DecidableEq

namespace Verbosity

/-- The verbosity that a user asks for by so many words. -/
def ofCount (n : Int) : Verbosity :=
  if n ≤ 0 then quiet else if n = 1 then progress else detailed

/-- The last level that is shown. -/
def level : Verbosity → LogLevel
  | quiet => .warning
  | progress => .info
  | detailed => .debug

/-- How a line is written among the output, where the log is to be shown at all. -/
def shown? (v : Verbosity) (l : LogLine) : Option String :=
  match v with
  | quiet => none
  | progress => if l.level = .debug then none else some l.text
  | detailed => some l.labelled

/-- How a line is written beside the output, where only warnings are shown. -/
def aside? (v : Verbosity) (l : LogLine) : Option String :=
  if v = quiet ∧ l.level = .warning then some l.text else none

end Verbosity
end NoteQuery
