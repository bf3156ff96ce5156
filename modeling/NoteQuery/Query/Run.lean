import NoteQuery.Eval.Evaluate
import NoteQuery.Expr.Parser
import NoteQuery.Log.Basic
import NoteQuery.Order.Sort
import NoteQuery.Query.Clause
import NoteQuery.Query.Group
import NoteQuery.Row.Task

/-!
Running a query: the source, the filter, one row for each item of a field, groups or fields, the
order, and the limit. Everything that is wrong with a query itself is found before any row is looked
at. A local failure of an expression leaves out a row or makes a cell null; it is noted in the log.
-/

namespace NoteQuery
set_option autoImplicit false

inductive QueryFault where
  | clause (fault : ClauseFault)
  | expression (fault : SyntaxFault)
  | aggregate (fault : BadAggregate)
  | ungrouped (expressions : List String)
  | evaluation (failure : Failure)
  deriving DecidableEq

namespace QueryFault

def message : QueryFault → String
  | clause f => f.message
  | expression f => f.message
  | aggregate f => f.message
  | ungrouped expressions =>
    "Aggregate functions require a GROUP BY clause: " ++ ", ".intercalate expressions
  | evaluation f => f.message

/-- Whether the fault is one of the text of the query; others are failures of its evaluation. -/
def isMistake : QueryFault → Bool
  | clause _ => true
  | expression (.badNumeral _) => false
  | expression _ => true
  | aggregate _ => false
  | ungrouped _ => true
  | evaluation f => f.isLocal

end QueryFault

/-- A computation of a query. -/
abbrev Running := Logged QueryFault

namespace Running

def ofOutcome {α : Type} (o : Outcome α) : Running α :=
  match o with
  | .ok a => pure a
  | .error f => throw (.evaluation f)

/-- A local failure is noted and made up for; the others go on. -/
def recover {α : Type} (o : Outcome α) (text : Failure → String) (default : α) : Running α :=
  match o with
  | .ok a => pure a
  | .error f => if f.isLocal then do Logged.debug (text f); return default else throw (.evaluation f)

end Running

/-- An expression with the text that it was read from. -/
structure Compiled where
  source : String
  expr : Expr

def Compiled.read (source : String) : Except QueryFault Compiled :=
  match Expr.parse source with
  | .ok expr => .ok ⟨source, expr⟩
  | .error f => .error (.expression f)

structure ProjectedField where
  spec : FieldSpec
  compiled : Compiled

/-- A query that nothing is wrong with. -/
structure Plan where
  query : Query
  filter? : Option Compiled
  aggregates : List Aggregate
  projections : List ProjectedField
  columns : List String
  /-- What rows are sorted by, where that is no column. -/
  sortKey? : Option Compiled

/-- The results of a query. -/
structure QueryResult where
  statement : Statement
  columns : List String
  rows : List Row
  tasks : List TaskItem
  query : Query

namespace QueryResult

/-- The statement in lower case. -/
def kind (r : QueryResult) : String := Text.lower r.statement.name

def record (r : QueryResult) : Record :=
  let content := match r.statement with
    | .task => [("tasks", .array (r.tasks.map fun t => .object t.record))]
    | _ => [("columns", Query.texts r.columns),
        ("rows", .array (r.rows.map fun row => .object row.record))]
  ("result_type", .text r.kind) :: content ++ [("query", .object r.query.describe)]

end QueryResult

namespace Plan

/-- A field that is an aggregate, under the name that the query gives it, or else an expression. The
word `file` alone means the name of the file. -/
def readField (spec : FieldSpec) : Except QueryFault (Aggregate ⊕ ProjectedField) :=
  match Aggregate.read spec.expression with
  | .error f => .error (.aggregate f)
  | .ok (some a) => .ok (.inl (if spec.alias?.isSome then { a with alias? := spec.alias? } else a))
  | .ok none => do
    let source := if spec.expression = Context.fileName then "file.name" else spec.expression
    return .inr ⟨spec, ← Compiled.read source⟩

/-- Checks the fields and the order of a query whose filter is read. -/
def ofTable (q : Query) (filter? : Option Compiled) : Except QueryFault Plan := do
  let fields ← q.fields.mapM fun spec => do return (spec, ← readField spec)
  let aggregates := fields.filterMap fun f => f.2.getLeft?
  let projections := fields.filterMap fun f => f.2.getRight?
  if q.groups.isEmpty && !aggregates.isEmpty then
    throw (.ungrouped ((fields.filter fun f => f.2.isLeft).map fun f => f.1.expression))
  let columns :=
    if q.groups.isEmpty then projections.map fun p => p.spec.name
    else q.groups ++ aggregates.map (·.name)
  let sortKey? ← match q.sort? with
    | none => pure none
    | some s => if columns.contains s.field then pure none else some <$> Compiled.read s.field
  return { query := q, filter?, aggregates, projections, columns, sortKey? }

/-- What a filter says of a context; a local failure means no. -/
def passes (now : Moment) (filter? : Option Compiled) (c : Context) : Running Bool :=
  match filter? with
  | none => return true
  | some f =>
    Running.recover (Value.isTrue <$> f.expr.evaluate now c)
      (fun e => "WHERE " ++ Text.quoted f.source ++ " failed, row excluded: " ++ e.message) false

/-- The fields of a row as the query asks for them. -/
def project (now : Moment) (projections : List ProjectedField) (r : Row) : Running Row := do
  let entries ← projections.mapM fun p => do
    let v ← Running.recover (p.compiled.expr.evaluate now r.context)
      (fun e => "Field " ++ Text.quoted p.spec.expression ++ " failed on " ++ r.file.path.mention ++
        ": " ++ e.message) .null
    return (p.spec.name, v)
  return { r with fields := Record.ofList entries, text? := none }

/-- A row of the result with the row that it comes from. -/
structure Sourced where
  source : Row
  row : Row

/-- What a row of the result is sorted by. -/
def sortKey (now : Moment) (p : Plan) (s : SortClause) (x : Sourced) : Running Value :=
  match p.sortKey? with
  | none => return x.row.fields.get s.field
  | some e =>
    Running.recover (e.expr.evaluate now x.source.context)
      (fun f => "SORT " ++ Text.quoted s.field ++ " failed on " ++ x.source.file.path.mention ++
        ": " ++ f.message) .null

/-- Rows with their keys in order; those of which neither key is less keep their order. -/
def sortByKey (descending : Bool) (keyed : List (Value × Sourced)) : Outcome (List Sourced) := do
  let before : Ordering := if descending then .gt else .lt
  return (← Order.sortM (fun x y => ArrayFunction.stands before x.1 y.1) keyed).map (·.2)

def sorted (now : Moment) (p : Plan) (results : List Sourced) : Running (List Sourced) := do
  match p.query.sort? with
  | none => return results
  | some s =>
    let keyed ← results.mapM fun x => do return (← sortKey now p s x, x)
    Running.ofOutcome (sortByKey s.descending keyed)

/-- The first of the items; a limit of zero is none. -/
def limited {α : Type} (limit? : Option Nat) (xs : List α) : List α :=
  match limit? with
  | some n => if n = 0 then xs else xs.take n
  | none => xs

def rowsText (n : Nat) : String := toString n ++ " row(s)"

/-- The rows of groups: the values of the key, then the aggregates. -/
def groupedRows (p : Plan) (rows : List Row) : Outcome (List Sourced) := do
  let groups ← Group.ofRows p.query.groups rows
  groups.mapM fun g => do
    let aggregates ← g.aggregates p.aggregates
    return ⟨g.first, ⟨g.first.file, Record.ofList (g.record ++ aggregates), none⟩⟩

/-- The rows of a table or list. -/
def tableRows (now : Moment) (p : Plan) (candidates : List Row) : Running (List Row) := do
  let kept ← candidates.filterM fun r => passes now p.filter? r.context
  if p.filter?.isSome then Logged.info ("WHERE kept " ++ rowsText kept.length)
  let rows ← match p.query.flatten?.bind nonempty? with
    | none => pure kept
    | some path => do
      let rows ← Running.ofOutcome (Row.flattenAll kept path)
      Logged.info ("FLATTEN produced " ++ rowsText rows.length)
      pure rows
  let results ← if p.query.groups.isEmpty then
      rows.mapM fun r => do return ⟨r, ← project now p.projections r⟩
    else do
      let results ← Running.ofOutcome (groupedRows p rows)
      Logged.info ("GROUP BY produced " ++ toString results.length ++ " group(s)")
      pure results
  return limited p.query.limit? ((← sorted now p results).map (·.row))

/-- The tasks of rows that pass the filter. -/
def tasks (now : Moment) (q : Query) (filter? : Option Compiled) (candidates : List Row) :
    Running (List TaskItem) := do
  let found := candidates.flatMap fun r => r.tasks.map fun t => (t, t.context r.file)
  let kept ← found.filterM fun x => passes now filter? x.2
  Logged.info ("TASK matched " ++ toString kept.length ++ " item(s)")
  return limited q.limit? (kept.map (·.1))

end Plan

namespace Query

/-- The rows of the source of a query. -/
def candidates (q : Query) (rows : List Row) : List Row :=
  match q.source? with
  | none => rows
  | some c => rows.filter fun r => c.holds r.file.path.mention r.fields

/-- Runs a query over rows. A filter without a text is none, and so is a path to flatten. -/
def run (now : Moment) (q : Query) (rows : List Row) : Running QueryResult := do
  let filter? ← liftExcept ((q.filter?.bind nonempty?).mapM Compiled.read)
  let candidates := q.candidates rows
  Logged.info ("FROM kept " ++ Plan.rowsText candidates.length)
  if q.statement = .task then
    let tasks ← Plan.tasks now q filter? candidates
    return ⟨q.statement, [], [], tasks, q⟩
  else
    let plan ← liftExcept (Plan.ofTable q filter?)
    let rows ← plan.tableRows now candidates
    return ⟨q.statement, plan.columns, rows, [], q⟩
where
  liftExcept {α : Type} (x : Except QueryFault α) : Running α :=
    match x with
    | .ok a => pure a
    | .error f => throw f

/-- Reads a query and runs it. -/
def runText (now : Moment) (text : String) (rows : List Row) : Running QueryResult :=
  match Query.read text with
  | .error f => throw (.clause f)
  | .ok q => q.run now rows

end Query
end NoteQuery
