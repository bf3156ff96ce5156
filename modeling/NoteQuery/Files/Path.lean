import NoteQuery.Text.Search

/-!
Names of files. A name is a list of parts; empty parts and single points are left out, so that each
place has one name as far as its spelling goes.
-/

namespace NoteQuery
set_option autoImplicit false

structure Path where
  absolute : Bool
  parts : List String
  deriving DecidableEq

namespace Path

def isPart (part : String) : Bool := part != "" && part != "."

def ofText (s : String) : Path :=
  { absolute := s.toList.head? == some '/'
    parts := ((Text.pieces ['/'] s.toList).map String.ofList).filter isPart }

def text (p : Path) : String :=
  let joined := "/".intercalate p.parts
  if p.absolute then "/" ++ joined else if p.parts.isEmpty then "." else joined

/-- The place of a name below this place. -/
def append (p : Path) (parts : List String) : Path := { p with parts := p.parts ++ parts }

/-- The last part; empty where there is none. -/
def name (p : Path) : String := p.parts.getLast?.getD ""

end Path
end NoteQuery
