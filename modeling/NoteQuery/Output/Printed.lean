import NoteQuery.Output.Grid

/-! Output as it appears on a terminal, without colors. -/

namespace NoteQuery.Output
set_option autoImplicit false
open NoteQuery.Text

/-- The columns of a terminal of which nothing else is known. -/
def terminalColumns : Nat := 80

/-- A line as a terminal shows it. -/
def shownLine (s : String) (c : Coloring) : List Char :=
  let cs := if c.isMarked then Markup.shown s.toList else s.toList
  let kept := cs.filter fun c => !movesCursor c
  joinWith ['\n'] ((pieces ['\n'] kept).map (expandTabs 0))

/-- The lines that are printed. -/
def printed : Output → List (List Char)
  | verbatim text => [text.toList]
  | line text c => [shownLine text c]
  | table t => tableLines terminalColumns t
  | highlighted json => [json.toList]

def printedText (outputs : List Output) : String :=
  String.ofList ((outputs.flatMap printed).flatMap fun l => l ++ ['\n'])

end NoteQuery.Output
