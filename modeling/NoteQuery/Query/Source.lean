import NoteQuery.Query.Field
import NoteQuery.Text.Quoted
import NoteQuery.Text.Search
import NoteQuery.Value.Text

/-!
Where the rows of a query come from: tags, folders and files, joined by one kind of connective. Main
use: a test on the path and the fields of a row, and a text that says the same.
-/

namespace NoteQuery
set_option autoImplicit false
open NoteQuery.Text

inductive SourceKind where
  | tag
  | folder
  | file
  deriving DecidableEq

structure Source where
  kind : SourceKind
  value : String
  negated : Bool
  deriving DecidableEq

structure SourceClause where
  connective : Connective
  sources : List Source
  deriving DecidableEq

namespace SourceKind

def name : SourceKind → String
  | tag => "tag"
  | folder => "folder"
  | file => "file"

end SourceKind

namespace Source

def describe (s : Source) : String :=
  let value := if s.kind = .tag then "#" ++ s.value else "\"" ++ s.value ++ "\""
  if s.negated then "-" ++ value else value

/-- The ending of note files. -/
def noteEnding : List Char := ".md".toList

/-- A tag after `#`, a file by its ending, or else a folder. -/
def ofChars (negated : Bool) : List Char → Source
  | '#' :: cs => ⟨.tag, String.ofList cs, negated⟩
  | cs =>
    let path := stripQuotes cs
    let kind := if endsWith noteEnding (lowerChars path) then .file else .folder
    ⟨kind, String.ofList path, negated⟩

/-- Reads a source; a dash before it negates it. -/
def read (s : String) : Except ClauseFault Source :=
  let cs := stripChars s.toList
  let (negated, value) := match cs with
    | '-' :: rest => (true, stripChars rest)
    | _ => (false, cs)
  if value.isEmpty then .error (.emptySource s) else .ok (ofChars negated value)

end Source

/-- A connective between blanks. -/
def readConnective : SeparatorReader Connective := fun _ c cs =>
  match spacedWord? "and" c cs, spacedWord? "or" c cs with
  | some n, _ => some (.and, n)
  | none, some n => some (.or, n)
  | none, none => none

namespace SourceClause

def describe (c : SourceClause) : String :=
  (" " ++ c.connective.symbol ++ " ").intercalate (c.sources.map (·.describe))

/-- Reads sources joined by one kind of connective. -/
def read (s : String) : Except ClauseFault SourceClause := do
  let (first, cuts) := Cell.cut readConnective s.toList
  if cuts.any (·.key = .and) && cuts.any (·.key = .or) then throw (.mixedConnectives s)
  let pieces := (first :: cuts.map (·.piece)).map fun p => String.ofList (Cell.text p)
  let sources ← pieces.mapM Source.read
  return ⟨((cuts.head?).map (·.key)).getD .and, sources⟩

end SourceClause

/-- Without a leading `#`. -/
def tagName : List Char → List Char
  | '#' :: cs => cs
  | cs => cs

/-- The tags of a row: the items of the field, or its value. -/
def tagsOf (fields : Record) : List (List Char) :=
  let values := match fields.get "tags" with
    | .array items => items
    | v => [v]
  (values.filter fun v => !v.isNull).map fun v => tagName v.mention.toList

namespace Source

/-- Whether a row lies in a source: a tag holds the tags below it, a folder the paths that start with
it, and a file may be named by the end of its path. -/
def holds (s : Source) (path : String) (fields : Record) : Bool :=
  let value := s.value.toList
  let found := match s.kind with
    | .tag => (tagsOf fields).any fun t => t == value || startsWith (value ++ ['/']) t
    | .folder => startsWith value path.toList
    | .file => path == s.value || endsWith ('/' :: value) path.toList
  found != s.negated

end Source

def SourceClause.holds (c : SourceClause) (path : String) (fields : Record) : Bool :=
  match c.connective with
  | .and => c.sources.all (·.holds path fields)
  | .or => c.sources.any (·.holds path fields)

end NoteQuery
