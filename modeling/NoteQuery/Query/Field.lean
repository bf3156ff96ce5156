import NoteQuery.Query.Mask
import NoteQuery.Text.Blank
import NoteQuery.Text.Case

/-!
The fields of a query: expressions between commas, each with a name of its own if one is given.
-/

namespace NoteQuery
set_option autoImplicit false
open NoteQuery.Text

/-- A column of a result. -/
structure FieldSpec where
  expression : String
  alias? : Option String
  deriving DecidableEq

namespace FieldSpec

/-- The name of the column. -/
def name (f : FieldSpec) : String := f.alias?.getD f.expression

end FieldSpec

/-- A comma. -/
def readComma : SeparatorReader Unit := fun _ c _ => if c.shown == ',' then some ((), 0) else none

/-- The pieces of a list between commas, without blanks around them and without empty ones. -/
def splitFields (s : String) : List String :=
  let r := Cell.cut readComma s.toList
  let pieces := (r.1 :: r.2.map (·.piece)).map fun cells => stripChars (Cell.text cells)
  (pieces.filter fun p => !p.isEmpty).map String.ofList

/-- Reads a word, given in lower case, between blanks; answers how many cells it takes. -/
def spacedWord? (word : String) (c : Cell) (cs : List Cell) : Option Nat :=
  if isBlank c.shown then
    let shown := Cell.shownText cs
    match readWord? word.toList (skipBlanks shown) with
    | some (_, rest) =>
      if rest.head?.any isBlank then some (shown.length - (skipBlanks rest).length) else none
    | none => none
  else none

def readAs : SeparatorReader Unit := fun _ c cs => (spacedWord? "as" c cs).map fun n => ((), n)

/-- Without the quotes around a text. -/
def stripQuotes (cs : List Char) : List Char :=
  match cs with
  | q :: rest => if Quoting.isQuote q && rest.getLast? == some q then rest.dropLast else cs
  | [] => []

namespace Cut

/-- The pieces with the separators between them. -/
def joined {κ : Type} (first : List Cell) (cuts : List (Cut κ)) : List Cell :=
  first ++ cuts.flatMap fun c => c.separator ++ c.piece

end Cut

/-- What is wrong with the clauses of a query. -/
inductive ClauseFault where
  | emptyQuery
  | unknownStatement (word : String)
  | duplicateClause (name : String)
  | emptyClause (name : String)
  | badAlias (text : String)
  | emptySource (text : String)
  | mixedConnectives (text : String)
  | badLimit (text : String)
  deriving DecidableEq

/-- Reads `expression AS name`; of several names the last one counts. -/
def FieldSpec.read (s : String) : Except ClauseFault FieldSpec :=
  let cs := stripChars s.toList
  let (first, cuts) := Cell.cut readAs cs
  match cuts.getLast? with
  | none => .ok ⟨String.ofList cs, none⟩
  | some last =>
    let expression := stripChars (Cell.text (Cut.joined first cuts.dropLast))
    let name := stripQuotes (stripChars (Cell.text last.piece))
    if expression.isEmpty || name.isEmpty then .error (.badAlias (String.ofList cs))
    else .ok ⟨String.ofList expression, some (String.ofList name)⟩

def FieldSpec.readList (s : String) : Except ClauseFault (List FieldSpec) :=
  (splitFields s).mapM FieldSpec.read

end NoteQuery
