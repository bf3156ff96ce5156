import NoteQuery.Number.Numeral
import NoteQuery.Query.Source
import NoteQuery.Text.Line

/-!
Queries and how they are read: a statement, a list of fields, and clauses, each of which starts with
its keyword outside quotes and brackets and reaches to the next one. Where a query is faulty, the
statement is reported before the clauses, and the clauses in the order in which they are read.
-/

namespace NoteQuery
set_option autoImplicit false
open NoteQuery.Text

inductive Statement where
  | table
  | list
  | task
  deriving DecidableEq

namespace Statement

def name : Statement → String
  | table => "TABLE"
  | list => "LIST"
  | task => "TASK"

def ofName? : String → Option Statement
  | "TABLE" => some table
  | "LIST" => some list
  | "TASK" => some task
  | _ => none

end Statement

structure SortClause where
  field : String
  descending : Bool
  deriving DecidableEq

namespace SortClause

def direction (s : SortClause) : String := if s.descending then "DESC" else "ASC"

def describe (s : SortClause) : String := s.field ++ " " ++ s.direction

/-- What stands before a word, given in lower case, and the blanks before that, if a text that starts
with no blank ends so. -/
def beforeWord? (word : String) (cs : List Char) : Option (List Char) :=
  match readWord? word.toList.reverse cs.reverse with
  | some (_, b :: rest) => if isBlank b then some (skipBlanks rest).reverse else none
  | _ => none

/-- Reads `field [ASC | DESC]`. -/
def read (s : String) : Except ClauseFault SortClause :=
  let cs := stripChars s.toList
  if cs.isEmpty then .error (.emptyClause "SORT")
  else
    match beforeWord? "asc" cs, beforeWord? "desc" cs with
    | some field, _ => .ok ⟨String.ofList field, false⟩
    | none, some field => .ok ⟨String.ofList field, true⟩
    | none, none => .ok ⟨String.ofList cs, false⟩

end SortClause

/-- Reads an integer in decimal digits; one that is not positive sets no limit. -/
def readLimit (s : String) : Except ClauseFault (Option Nat) :=
  let cs := stripChars s.toList
  let (negative, digits) := Numeral.sign cs
  if digits.isEmpty || !digits.all isDecimal then .error (.badLimit (String.ofList cs))
  else
    let n := naturalOfDigits digits
    .ok (if negative || n = 0 then none else some n)

structure Query where
  statement : Statement
  fields : List FieldSpec
  source? : Option SourceClause
  filter? : Option String
  sort? : Option SortClause
  groups : List String
  flatten? : Option String
  limit? : Option Nat
  deriving DecidableEq

/-- A clause with the name of its keyword. -/
structure Clause where
  name : String
  content : String
  deriving DecidableEq

namespace Clause

/-- The words of the keywords, in lower case. -/
def keywords : List (List String) :=
  [["from"], ["where"], ["sort"], ["group", "by"], ["flatten"], ["limit"]]

/-- Reads words with blanks between them; answers the characters of the words and the rest. -/
def readWords? : List String → List Char → Option (List (List Char) × List Char)
  | [], cs => some ([], cs)
  | [w], cs => (readWord? w.toList cs).map fun r => ([r.1], r.2)
  | w :: ws, cs => do
    let (word, rest) ← readWord? w.toList cs
    if rest.head?.any isBlank then
      let (words, rest) ← readWords? ws (skipBlanks rest)
      return (word :: words, rest)
    else none

/-- Whether a keyword may follow a character. -/
def mayPrecede (c : Char) : Bool := !(isWord c || c == '.' || c == '#' || c == '-')

/-- Reads a keyword that blanks follow; answers its name in upper case. -/
def readKeyword : SeparatorReader String := fun before c cs =>
  if before.all fun b => mayPrecede b.shown then
    let shown := c.shown :: Cell.shownText cs
    keywords.findSome? fun ws =>
      match readWords? ws shown with
      | some (words, rest) =>
        if rest.isEmpty || rest.head?.any isBlank then
          some (String.ofList (joinWith [' '] (words.map upperChars)), cs.length - rest.length)
        else none
      | none => none
  else none

/-- Checks the clauses in their order: no two of one name, and none empty. -/
def collect (seen : List String) : List (Cut String) → Except ClauseFault (List Clause)
  | [] => .ok []
  | cut :: cuts => do
    if seen.contains cut.key then throw (.duplicateClause cut.key)
    let content := stripChars (Cell.text cut.piece)
    if content.isEmpty then throw (.emptyClause cut.key)
    let rest ← collect (cut.key :: seen) cuts
    return ⟨cut.key, String.ofList content⟩ :: rest

/-- The part of a query before its clauses, and the clauses. -/
def split (cs : List Char) : Except ClauseFault (List Char × List Clause) := do
  let (header, cuts) := Cell.cut readKeyword cs
  return (Cell.text header, ← collect [] cuts)

def find? (clauses : List Clause) (name : String) : Option String :=
  (clauses.find? fun c => c.name == name).map (·.content)

end Clause

namespace Query

/-- The field of a query that names none. -/
def defaultFields : List FieldSpec := [⟨"file.name", none⟩]

/-- The lines of a text, without blanks around them and without empty ones. -/
def sourceLines (cs : List Char) : List (List Char) :=
  ((lineContents (stripChars cs)).map stripChars).filter fun l => !l.isEmpty

/-- The statement that a text starts with, and the rest. -/
def readStatement (cs : List Char) : Except ClauseFault (Statement × List Char) :=
  let letters := cs.takeWhile isLatin
  let rest := cs.dropWhile isLatin
  if letters.isEmpty || !(rest.isEmpty || rest.head?.any isBlank) then
    .error (.unknownStatement (String.ofList (cs.takeWhile fun c => !isBlank c)))
  else
    let word := String.ofList (upperChars letters)
    match Statement.ofName? word with
    | some s => .ok (s, rest)
    | none => .error (.unknownStatement word)

/-- Reads a query. -/
def read (text : String) : Except ClauseFault Query := do
  let lines := sourceLines text.toList
  if lines.isEmpty then throw .emptyQuery
  let (statement, body) ← readStatement (joinWith ['\n'] lines)
  let (header, clauses) ← Clause.split body
  let named ← if statement = .task then pure []
    else FieldSpec.readList (String.ofList (stripChars header))
  let fields := if statement = .task then [] else if named.isEmpty then defaultFields else named
  let source? ← (Clause.find? clauses "FROM").mapM SourceClause.read
  let sort? ← (Clause.find? clauses "SORT").mapM SortClause.read
  let limit? ← (Clause.find? clauses "LIMIT").mapM readLimit
  return {
    statement, fields, source?, sort?
    filter? := Clause.find? clauses "WHERE"
    groups := splitFields ((Clause.find? clauses "GROUP BY").getD "")
    flatten? := Clause.find? clauses "FLATTEN"
    limit? := limit?.join }

def texts (ss : List String) : Value := .array (ss.map .text)

def textOrNull : Option String → Value
  | some s => .text s
  | none => .null

/-- The clauses as they were understood. -/
def describe (q : Query) : Record := [
  ("type", .text q.statement.name),
  ("fields", texts (q.fields.map (·.name))),
  ("from", textOrNull (q.source?.map (·.describe))),
  ("where", textOrNull q.filter?),
  ("sort", textOrNull (q.sort?.map (·.describe))),
  ("group_by", texts q.groups),
  ("flatten", textOrNull q.flatten?),
  ("limit", match q.limit? with | some n => .int n | none => .null)]

end Query

def ClauseFault.message : ClauseFault → String
  | emptyQuery => "Empty query"
  | unknownStatement word => "Query must start with TABLE, LIST or TASK, got " ++ quoted word
  | duplicateClause name => "Duplicate " ++ name ++ " clause"
  | emptyClause name => name ++ " clause is empty"
  | badAlias text => "Invalid field alias: " ++ text
  | emptySource text => "Empty FROM source: " ++ quoted text
  | mixedConnectives text => "Mixing AND and OR in FROM is not supported: " ++ text
  | badLimit text => "LIMIT must be an integer, got " ++ quoted text

end NoteQuery
