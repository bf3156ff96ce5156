import NoteQuery.Output.Style
import NoteQuery.Query.Run

/-!
What is written for the result of a query: lines for a list or for tasks, a table, or interchange
data. Every row of a table has one cell for each column.
-/

namespace NoteQuery
set_option autoImplicit false

inductive OutputFormat where
  | table
  | json
  deriving DecidableEq

namespace OutputFormat

def name : OutputFormat → String
  | table => "table"
  | json => "json"

def all : List OutputFormat := [table, json]

/-- The format of a name, in any case and with blanks around it. -/
def ofName? (s : String) : Option OutputFormat :=
  let wanted := Text.lower (Text.strip s)
  all.find? fun f => f.name == wanted

def unsupportedMessage (s : String) : String :=
  "Unsupported output format '" ++ s ++ "', expected one of: " ++ ", ".intercalate (all.map name)

theorem ofName?_name (f : OutputFormat) : ofName? f.name = some f := by cases f <;> decide +kernel

end OutputFormat

/-- Markup for a heading and for cells. -/
structure MarkedTable where
  heading : List String
  rows : List (List String)

inductive Output where
  | verbatim (text : String)
  | line (text : String) (coloring : Coloring)
  | table (t : MarkedTable)
  | highlighted (json : String)

namespace Output

def noResults : Output := line "No results" .plain

/-- One value as the text of a cell. -/
def cell (c : Coloring) : Value → Except RangeError String
  | .null => .ok (c.inStyle .absent "-")
  | .array items => do return c.text (", ".intercalate (← Value.displayAll items))
  | v => do return c.text (← v.display)

/-- The cells of a row; a column that it does not have is null. -/
def cells (c : Coloring) (columns : List String) (r : Row) : Except RangeError (List String) :=
  columns.mapM fun name => cell c (r.fields.get name)

def listLine (c : Coloring) (columns : List String) (r : Row) : Except RangeError Output := do
  let items ← cells c columns r
  let content := if items.isEmpty then c.text r.file.path.mention else " - ".intercalate items
  return line ("- " ++ content) c

def taskLine (c : Coloring) (t : TaskItem) : Output :=
  let box := c.inStyle (.ofTask t.completed) (if t.completed then "[x]" else "[ ]")
  let place := c.inStyle .aside ("(" ++ t.path.mention ++ ":" ++ toString t.line ++ ")")
  line ("- " ++ box ++ " " ++ c.text t.text ++ " " ++ place) c

/-- A table is markup whether its colours are shown or not. -/
def tableOf (columns : List String) (rows : List Row) : Except RangeError Output := do
  let cells ← rows.mapM (cells .marked columns)
  return table ⟨columns.map (Coloring.marked.inStyle .heading), cells⟩

def ofJson (c : Coloring) (r : QueryResult) : Except RangeError Output := do
  let text := (← (Value.object r.record).toJson).render .beyondAscii
  return if c.isMarked then highlighted text else verbatim text

end Output

namespace QueryResult

/-- The result with at most so many rows and tasks; zero sets no limit. -/
def capped (r : QueryResult) (most : Nat) : QueryResult :=
  if most = 0 then r else { r with rows := r.rows.take most, tasks := r.tasks.take most }

/-- What is written for the result. -/
def outputs (r : QueryResult) (format : OutputFormat) (c : Coloring) :
    Except RangeError (List Output) :=
  match format with
  | .json => do return [← Output.ofJson c r]
  | .table =>
    match r.statement with
    | .task =>
      .ok (if r.tasks.isEmpty then [Output.noResults] else r.tasks.map (Output.taskLine c))
    | .list =>
      if r.rows.isEmpty then .ok [Output.noResults] else r.rows.mapM (Output.listLine c r.columns)
    | .table =>
      if r.rows.isEmpty then .ok [Output.noResults]
      else do return [← Output.tableOf r.columns r.rows]

end QueryResult
end NoteQuery
