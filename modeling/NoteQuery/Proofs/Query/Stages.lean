import NoteQuery.Proofs.Outcome.Logged
import NoteQuery.Proofs.Outcome.Yields
import NoteQuery.Query.Run

/-! What running a query comes to, stage by stage, without the log: the filter, the rows for the items of a
field, the groups or the fields, the order, the limit. -/

namespace NoteQuery
set_option autoImplicit false

namespace Running

variable {α : Type}

theorem comesTo_ofOutcome (o : Outcome α) : (ofOutcome o).ComesTo (o.mapError .evaluation) := by
  cases o with
  | ok a => exact Logged.comesTo_pure a
  | error f => exact Logged.comesTo_throw _

/-- The value of a computation, or another one where it fails locally. -/
def orElse (o : Outcome α) (default : α) : Except QueryFault α :=
  match o with
  | .ok a => .ok a
  | .error f => if f.isLocal then .ok default else .error (.evaluation f)

theorem comesTo_orElse (o : Outcome α) (text : Failure → String) (default : α) :
    (recover o text default).ComesTo (orElse o default) := by
  cases o with
  | ok a => exact Logged.comesTo_pure a
  | error f =>
    simp only [recover, orElse]
    cases f.isLocal with
    | true => exact (Logged.comesTo_note _ _).bind (Logged.comesTo_pure default)
    | false => exact Logged.comesTo_throw _

end Running

namespace Plan

variable {now : Moment}

/-! ### One row -/

/-- The answer of a filter for a context. -/
def answer (now : Moment) (filter? : Option Compiled) (c : Context) : Except QueryFault Bool :=
  match filter? with
  | none => .ok true
  | some f => Running.orElse (Value.isTrue <$> f.expr.evaluate now c) false

theorem passes_comesTo (now : Moment) (filter? : Option Compiled) (c : Context) :
    (passes now filter? c).ComesTo (answer now filter? c) := by
  cases filter? with
  | none => exact Logged.comesTo_pure true
  | some f => exact Running.comesTo_orElse _ _ _

/-- A row with the cells of the fields. -/
def projected (now : Moment) (projections : List ProjectedField) (r : Row) :
    Except QueryFault Row := do
  let entries ← projections.mapM fun p => do
    let v ← Running.orElse (p.compiled.expr.evaluate now r.context) .null
    return (p.spec.name, v)
  return { r with fields := Record.ofList entries, text? := none }

theorem project_comesTo (projections : List ProjectedField) (r : Row) :
    (project now projections r).ComesTo (projected now projections r) := by
  refine (Logged.comesTo_mapM (fun p => ?_) projections).andThen fun _ => Logged.comesTo_pure _
  exact (Running.comesTo_orElse _ _ _).andThen fun _ => Logged.comesTo_pure _

/-- What a row of the result is sorted by. -/
def sortValue (now : Moment) (p : Plan) (s : SortClause) (x : Sourced) : Except QueryFault Value :=
  match p.sortKey? with
  | none => .ok (x.row.fields.get s.field)
  | some e => Running.orElse (e.expr.evaluate now x.source.context) .null

theorem sortValue_comesTo (p : Plan) (s : SortClause) (x : Sourced) :
    (sortKey now p s x).ComesTo (sortValue now p s x) := by
  unfold sortKey sortValue
  cases p.sortKey? with
  | none => exact Logged.comesTo_pure _
  | some e => exact Running.comesTo_orElse _ _ _

/-! ### All rows -/

/-- The rows that pass a filter. -/
def kept (now : Moment) (filter? : Option Compiled) (rows : List Row) : Except QueryFault (List Row) :=
  rows.filterM fun r => answer now filter? r.context

/-- The rows for the items at a path. -/
def flattened (path? : Option String) (rows : List Row) : Except QueryFault (List Row) :=
  match path?.bind nonempty? with
  | none => .ok rows
  | some path => (Row.flattenAll rows path).mapError .evaluation

/-- The results in the order in which they come. -/
def results (now : Moment) (p : Plan) (rows : List Row) : Except QueryFault (List Sourced) :=
  if p.query.groups.isEmpty then rows.mapM fun r => do return ⟨r, ← projected now p.projections r⟩
  else (groupedRows p rows).mapError .evaluation

/-- The results in the order that the query asks for. -/
def ordered (now : Moment) (p : Plan) (results : List Sourced) : Except QueryFault (List Sourced) :=
  match p.query.sort? with
  | none => .ok results
  | some s => do
    let keyed ← results.mapM fun x => do return (← sortValue now p s x, x)
    (sortByKey s.descending keyed).mapError .evaluation

theorem sorted_comesTo_ordered (p : Plan) (results : List Sourced) :
    (p.sorted now results).ComesTo (p.ordered now results) := by
  unfold sorted ordered
  cases p.query.sort? with
  | none => exact Logged.comesTo_pure results
  | some s =>
    refine (Logged.comesTo_mapM (fun x => ?_) results).andThen fun _ => Running.comesTo_ofOutcome _
    exact (sortValue_comesTo p s x).andThen fun _ => Logged.comesTo_pure _

/-- The rows of a table or list. -/
def table (now : Moment) (p : Plan) (candidates : List Row) : Except QueryFault (List Row) := do
  let kept ← kept now p.filter? candidates
  let rows ← flattened p.query.flatten? kept
  let results ← p.results now rows
  let ordered ← p.ordered now results
  return limited p.query.limit? (ordered.map (·.row))

theorem tableRows_comesTo (p : Plan) (candidates : List Row) :
    (p.tableRows now candidates).ComesTo (p.table now candidates) := by
  unfold tableRows table
  have hkept := Logged.comesTo_filterM
    (fun r : Row => passes_comesTo now p.filter? r.context) candidates
  refine Logged.ComesTo.andThen hkept fun kept => ?_
  -- a stage goes on with the next one in two places, with a note and without
  extract_lets order group flatten
  have horder (results : List Sourced) : (order results).ComesTo (do
      let ordered ← p.ordered now results
      return limited p.query.limit? (ordered.map (·.row))) :=
    (sorted_comesTo_ordered p results).andThen fun _ => Logged.comesTo_pure _
  have hgroup (rows : List Row) : (group rows).ComesTo (do
      let results ← p.results now rows
      let ordered ← p.ordered now results
      return limited p.query.limit? (ordered.map (·.row))) := by
    unfold group results
    cases p.query.groups.isEmpty with
    | true =>
      refine (Logged.comesTo_mapM (fun r => ?_) rows).andThen horder
      exact (project_comesTo p.projections r).andThen fun _ => Logged.comesTo_pure _
    | false =>
      refine (Running.comesTo_ofOutcome (groupedRows p rows)).andThen fun results => ?_
      exact (Logged.comesTo_note _ _).bind (horder results)
  have hflatten : (flatten ()).ComesTo (do
      let rows ← flattened p.query.flatten? kept
      let results ← p.results now rows
      let ordered ← p.ordered now results
      return limited p.query.limit? (ordered.map (·.row))) := by
    unfold flatten flattened
    cases p.query.flatten?.bind nonempty? with
    | none => exact hgroup kept
    | some path =>
      refine (Running.comesTo_ofOutcome (Row.flattenAll kept path)).andThen fun rows => ?_
      exact (Logged.comesTo_note _ _).bind (hgroup rows)
  cases p.filter?.isSome with
  | true => exact (Logged.comesTo_note _ _).bind hflatten
  | false => exact hflatten

/-- The tasks of rows with what an expression sees of them. -/
def taskContexts (rows : List Row) : List (TaskItem × Context) :=
  rows.flatMap fun r => r.tasks.map fun t => (t, t.context r.file)

/-- The tasks of rows that pass a filter. -/
def keptTasks (now : Moment) (filter? : Option Compiled) (rows : List Row) :
    Except QueryFault (List TaskItem) := do
  return (← (taskContexts rows).filterM fun x => answer now filter? x.2).map (·.1)

theorem tasks_comesTo (q : Query) (filter? : Option Compiled) (candidates : List Row) :
    (tasks now q filter? candidates).ComesTo
      (limited q.limit? <$> keptTasks now filter? candidates) := by
  have hkept := Logged.comesTo_filterM
    (fun x : TaskItem × Context => passes_comesTo now filter? x.2) (taskContexts candidates)
  unfold keptTasks
  rw [map_bind]
  refine Logged.ComesTo.andThen hkept fun kept => ?_
  exact (Logged.comesTo_note _ _).bind (Logged.comesTo_pure _)

/-- A plan is made of the fields of its query. -/
structure IsFor (q : Query) (filter? : Option Compiled) (p : Plan) : Prop where
  query : p.query = q
  filter : p.filter? = filter?
  fields : ∃ fields, q.fields.mapM readField = .ok fields ∧
    p.aggregates = fields.filterMap Sum.getLeft? ∧ p.projections = fields.filterMap Sum.getRight?
  columns : p.columns = if q.groups.isEmpty then p.projections.map (·.spec.name)
    else q.groups ++ p.aggregates.map (·.name)

theorem ofTable_isFor {q : Query} {filter? : Option Compiled} {p : Plan}
    (h : ofTable q filter? = .ok p) : p.IsFor q filter? := by
  unfold ofTable at h
  obtain ⟨fields, hfields, h⟩ := bind_eq_ok.mp h
  have hread : q.fields.mapM readField = .ok (fields.map (·.2)) := by
    have heach : readField = fun spec => (·.2) <$> (do return (spec, ← readField spec)) := by
      funext spec
      cases readField spec <;> rfl
    rw [heach, mapM_map, hfields]
    rfl
  extract_lets aggregates projections columns finish check at h
  have hfinish {k : Option Compiled} (hp : finish k = .ok p) : p.IsFor q filter? := by
    cases hp
    refine ⟨rfl, rfl, ⟨fields.map (·.2), hread, ?_, ?_⟩, rfl⟩
    · rw [List.filterMap_map]
      rfl
    · rw [List.filterMap_map]
      rfl
  have hcheck (hp : check () = .ok p) : p.IsFor q filter? := by
    unfold check at hp
    split at hp
    · exact hfinish hp
    · split at hp
      · exact hfinish hp
      · obtain ⟨k, -, hp⟩ := bind_eq_ok.mp hp
        exact hfinish hp
  split at h
  · cases h
  · exact hcheck h

/-- Queries with the same fields, groups and order have the same plan but for what it records of them. -/
theorem ofTable_congr (q q' : Query) (hfields : q.fields = q'.fields) (hgroups : q.groups = q'.groups)
    (hsort : q.sort? = q'.sort?) (filter? filter'? : Option Compiled) :
    ofTable q filter? =
      (fun p => { p with query := q, filter? := filter? }) <$> ofTable q' filter'? := by
  unfold ofTable
  rw [hfields, hgroups, hsort, map_bind]
  refine bind_congr fun fields => ?_
  dsimp only
  split
  · rfl
  · cases q'.sort? with
    | none => rfl
    | some s =>
      -- the order is by a column of the fields or of the groups, or by an expression
      dsimp only
      split <;> split <;> simp only [bind_map_left, map_bind, map_pure, pure_bind]

/-- Without a filter the plan goes on with all rows. -/
theorem table_of_kept {p : Plan} {filter? : Option Compiled} {candidates rows : List Row}
    (hkept : kept now filter? candidates = .ok rows) (hnone : p.filter? = none) (q : Query) :
    table now { p with query := q, filter? := filter? } candidates =
      table now { p with query := q } rows := by
  have hall : kept now none rows = .ok rows := by
    have hpass (r : Row) (_ : r ∈ rows) : answer now none r.context = .ok true := rfl
    rw [kept, filterM_eq_ok hpass, List.filter_true]
  unfold table
  rw [hkept, hnone, hall]
  rfl

end Plan

namespace Query

/-- The filter of a query for tasks, or the plan of another one. -/
def ready (q : Query) : Except QueryFault (Option Compiled ⊕ Plan) := do
  let filter? ← (q.filter?.bind nonempty?).mapM Compiled.read
  if q.statement = .task then return .inl filter? else .inr <$> Plan.ofTable q filter?

/-- The result of a query that is read. -/
def resultOf (now : Moment) (q : Query) (rows : List Row) :
    Option Compiled ⊕ Plan → Except QueryFault QueryResult
  | .inl filter? => do
    let tasks ← Plan.limited q.limit? <$> Plan.keptTasks now filter? (q.candidates rows)
    return ⟨q.statement, [], [], tasks, q⟩
  | .inr p => do return ⟨q.statement, p.columns, ← p.table now (q.candidates rows), [], q⟩

/-- A query is read before any row is looked at. -/
theorem run_comesTo (now : Moment) (q : Query) (rows : List Row) :
    (q.run now rows).ComesTo (q.ready >>= q.resultOf now rows) := by
  unfold run ready
  cases (q.filter?.bind nonempty?).mapM Compiled.read with
  | error f => exact (Logged.comesTo_throw f).bind_error
  | ok filter? =>
    refine (Logged.comesTo_pure filter?).bind ((Logged.comesTo_note _ _).bind ?_)
    change Logged.ComesTo _ ((if q.statement = .task then _ else _) >>= q.resultOf now rows)
    split
    · exact (Plan.tasks_comesTo q filter? _).andThen fun tasks => Logged.comesTo_pure _
    · cases Plan.ofTable q filter? with
      | error f => exact (Logged.comesTo_throw f).bind_error
      | ok p => exact (Plan.tableRows_comesTo p _).andThen fun rows => Logged.comesTo_pure _

theorem result_of_ready {now : Moment} {q : Query} {x : Option Compiled ⊕ Plan} (h : q.ready = .ok x)
    (rows : List Row) : (q.run now rows).result.1 = q.resultOf now rows x := by
  rw [(run_comesTo now q rows).result_fst, h]
  rfl

theorem result_of_fault {now : Moment} {q : Query} {f : QueryFault} (h : q.ready = .error f)
    (rows : List Row) : (q.run now rows).result.1 = .error f := by
  rw [(run_comesTo now q rows).result_fst, h]
  rfl

theorem ready_inr {q : Query} {p : Plan} (h : q.ready = .ok (.inr p)) : p.query = q := by
  unfold ready at h
  obtain ⟨filter?, -, h⟩ := bind_eq_ok.mp h
  split at h
  · cases h
  · obtain ⟨p', hp, h⟩ := map_eq_ok.mp h
    cases h
    exact (Plan.ofTable_isFor hp).query

end Query
end NoteQuery
