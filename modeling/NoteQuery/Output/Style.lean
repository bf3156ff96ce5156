import NoteQuery.Markup.Basic

/-! The styles in which output is written, and text in them. -/

namespace NoteQuery
set_option autoImplicit false

inductive Style where
  | heading
  | aside
  | absent
  | done
  | undone
  deriving DecidableEq

namespace Style

def name : Style → String
  | heading => "bold white"
  | aside => "dim white"
  | absent => "magenta"
  | done => "bold green"
  | undone => "bold yellow"

def ofTask (completed : Bool) : Style := if completed then done else undone

end Style

/-- Whether text is written as markup or as it is. -/
inductive Coloring where
  | plain
  | marked
  deriving DecidableEq

namespace Coloring

/-- The coloring that is asked for, or else that which suits where the output goes. -/
def choose (flag? : Option Bool) (terminal : Bool) : Coloring :=
  if flag?.getD terminal then marked else plain

def isMarked (c : Coloring) : Bool := c == marked

def text (c : Coloring) (s : String) : String :=
  match c with
  | plain => s
  | marked => String.ofList (Markup.escape s.toList)

def inStyleNamed (c : Coloring) (style s : String) : String :=
  match c with
  | plain => s
  | marked => String.ofList (Markup.styled style s.toList)

def inStyle (c : Coloring) (style : Style) (s : String) : String := c.inStyleNamed style.name s

/-- The name of a style where it is used. -/
def styleName (c : Coloring) (style : Style) : String :=
  match c with
  | plain => ""
  | marked => style.name

end Coloring
end NoteQuery
