import NoteQuery.Proofs.Order.Failing
import NoteQuery.Proofs.Query.Stages

/-! What is wrong with a query itself is found whatever the rows are. Rows only bring failures of their
evaluation that are not local, and never a fault of the query. -/

namespace NoteQuery
set_option autoImplicit false

/-! ### Failures that are not local -/

theorem failsOnly_liftM {α : Type} (x : Except RangeError α) :
    FailsOnly (fun f => f.isLocal = false) (liftM x : Outcome α) := by
  cases x <;> trivial

namespace Row

variable {r : Row}

theorem failsOnly_child (v : Value) (part : String) :
    FailsOnly (fun f => f.isLocal = false) (child v part) := by
  unfold child
  split
  · trivial
  · dsimp only
    repeat' split
    all_goals trivial
  · trivial

theorem failsOnly_descend (v : Value) (parts : List String) :
    FailsOnly (fun f => f.isLocal = false) (descend v parts) := by
  induction parts generalizing v with
  | nil => trivial
  | cons part parts ih =>
    rw [descend]
    refine (failsOnly_child v part).bind fun w _ => ?_
    split
    · trivial
    · exact ih w

theorem failsOnly_lookup (r : Row) (path : String) :
    FailsOnly (fun f => f.isLocal = false) (r.lookup path) := by
  unfold lookup
  split
  · trivial
  · split
    · exact failsOnly_descend _ _
    · split
      · exact failsOnly_descend _ _
      · trivial

theorem failsOnly_flattenAll (rows : List Row) (path : String) :
    FailsOnly (fun f => f.isLocal = false) (flattenAll rows path) := by
  refine (FailsOnly.mapM fun r => ?_).returning List.flatten
  refine (failsOnly_lookup r path).andThen fun v => ?_
  split <;> trivial

end Row

theorem Aggregate.failsOnly_compute (a : Aggregate) (rows : List Row) :
    FailsOnly (fun f => f.isLocal = false) (a.compute rows) := by
  have hvalues (path : String) : FailsOnly (fun f => f.isLocal = false) (valuesAt rows path) :=
    .mapM fun r => r.failsOnly_lookup path
  have hpick (path? : Option String) (r? : Option Row) :
      FailsOnly (fun f => f.isLocal = false) (pick path? r?) := by
    cases r? with
    | none => trivial
    | some r =>
      cases path? with
      | none => trivial
      | some path => exact r.failsOnly_lookup path
  unfold compute
  split
  · trivial
  · exact hpick _ _
  · exact hpick _ _
  · trivial
  · exact (hvalues _).returning _
  · trivial
  · exact (hvalues _).andThen fun _ => (failsOnly_liftM _).returning _
  · refine (hvalues _).andThen fun _ => (failsOnly_liftM _).andThen fun n? => ?_
    cases n? <;> trivial
  · exact (hvalues _).andThen fun _ => failsOnly_liftM _
  · exact (hvalues _).andThen fun _ => failsOnly_liftM _

theorem Group.failsOnly_ofRows (paths : List String) (rows : List Row) :
    FailsOnly (fun f => f.isLocal = false) (ofRows paths rows) := by
  have hrecord (r : Row) : FailsOnly (fun f => f.isLocal = false) (recordOf paths r) :=
    (FailsOnly.mapM fun p => (r.failsOnly_lookup p).returning _).returning _
  have hgroup (r : Row) : FailsOnly (fun f => f.isLocal = false) (ofRow paths r) :=
    (hrecord r).andThen fun _ => (failsOnly_liftM _).returning _
  exact Yields.foldlM trivial fun _ _ r _ => (hgroup r).returning _

namespace Plan

theorem failsOnly_groupedRows (p : Plan) (rows : List Row) :
    FailsOnly (fun f => f.isLocal = false) (groupedRows p rows) := by
  have haggregates (g : Group) : FailsOnly (fun f => f.isLocal = false) (g.aggregates p.aggregates) :=
    (FailsOnly.mapM fun a => (a.failsOnly_compute g.rows).returning _).returning _
  exact (Group.failsOnly_ofRows _ _).andThen fun _ => .mapM fun g => (haggregates g).returning _

theorem failsOnly_sortByKey (descending : Bool) (keyed : List (Value × Sourced)) :
    FailsOnly (fun f => f.isLocal = false) (sortByKey descending keyed) := by
  have hstands (x y : Value × Sourced) : FailsOnly (fun f => f.isLocal = false)
      (ArrayFunction.stands (if descending then .gt else .lt) x.1 y.1) :=
    (failsOnly_liftM _).returning _
  exact (Order.failsOnly_sortM hstands keyed).returning _

end Plan

/-! ### Stages -/

namespace QueryFault

/-- A fault of the query: of a clause, an expression, an aggregate, or an aggregate without groups. -/
def isOfQuery : QueryFault → Bool
  | evaluation _ => false
  | _ => true

/-- A fault that the evaluation of rows brings: a failure that is not local. -/
def IsOfRows (f : QueryFault) : Prop := ∃ e : Failure, f = .evaluation e ∧ e.isLocal = false

theorem isOfRows_evaluation {α : Type} {o : Outcome α}
    (h : FailsOnly (fun f => f.isLocal = false) o) : FailsOnly IsOfRows (o.mapError .evaluation) :=
  (h.weaken fun e he => ⟨e, rfl, he⟩).mapError

theorem isOfRows_orElse {α : Type} (o : Outcome α) (default : α) :
    FailsOnly IsOfRows (Running.orElse o default) := by
  cases o with
  | ok a => trivial
  | error f =>
    unfold Running.orElse
    dsimp only
    cases h : f.isLocal with
    | true => trivial
    | false => exact ⟨f, rfl, h⟩

end QueryFault

theorem isOfQuery_read (source : String) :
    FailsOnly (fun f => f.isOfQuery = true) (Compiled.read source) := by
  unfold Compiled.read
  cases Expr.parse source <;> trivial

namespace Plan

theorem isOfQuery_readField (spec : FieldSpec) :
    FailsOnly (fun f => f.isOfQuery = true) (readField spec) := by
  unfold readField
  split
  · trivial
  · trivial
  · exact (isOfQuery_read _).returning _

theorem isOfQuery_ofTable (q : Query) (filter? : Option Compiled) :
    FailsOnly (fun f => f.isOfQuery = true) (ofTable q filter?) := by
  unfold ofTable
  refine (FailsOnly.mapM fun spec => (isOfQuery_readField spec).returning _).andThen fun fields => ?_
  extract_lets aggregates projections columns finish check
  have hcheck : FailsOnly (fun f => f.isOfQuery = true) (check ()) := by
    unfold check
    split
    · trivial
    · split
      · trivial
      · exact ((isOfQuery_read _).mapped some).returning _
  split
  · trivial
  · exact hcheck

variable {now : Moment}

theorem failsOnly_filterM {α : Type} {filter? : Option Compiled} (context : α → Context) (as : List α) :
    FailsOnly QueryFault.IsOfRows (as.filterM fun a => answer now filter? (context a)) := by
  rw [filterM_eq_mapM]
  refine (FailsOnly.mapM fun a => ?_).map
  cases filter? with
  | none => trivial
  | some f => exact (QueryFault.isOfRows_orElse _ _).map

theorem failsOnly_projected (projections : List ProjectedField) (r : Row) :
    FailsOnly QueryFault.IsOfRows (projected now projections r) :=
  (FailsOnly.mapM fun _ => (QueryFault.isOfRows_orElse _ _).returning _).returning _

theorem failsOnly_ordered (p : Plan) (results : List Sourced) :
    FailsOnly QueryFault.IsOfRows (p.ordered now results) := by
  unfold ordered
  split
  · trivial
  · next s _ =>
    have hkey (x : Sourced) : FailsOnly QueryFault.IsOfRows (sortValue now p s x) := by
      unfold sortValue
      split
      · trivial
      · exact QueryFault.isOfRows_orElse _ _
    have hkeyed : FailsOnly QueryFault.IsOfRows
        (results.mapM fun x => do return (← sortValue now p s x, x)) :=
      .mapM fun x => (hkey x).returning _
    exact hkeyed.andThen fun keyed => QueryFault.isOfRows_evaluation (failsOnly_sortByKey _ keyed)

theorem failsOnly_table (p : Plan) (rows : List Row) :
    FailsOnly QueryFault.IsOfRows (p.table now rows) := by
  have hflattened (kept : List Row) :
      FailsOnly QueryFault.IsOfRows (flattened p.query.flatten? kept) := by
    unfold flattened
    split
    · trivial
    · exact QueryFault.isOfRows_evaluation (Row.failsOnly_flattenAll _ _)
  have hresults (rows : List Row) : FailsOnly QueryFault.IsOfRows (p.results now rows) := by
    unfold results
    split
    · exact .mapM fun r => (failsOnly_projected _ r).returning _
    · exact QueryFault.isOfRows_evaluation (failsOnly_groupedRows p rows)
  exact (failsOnly_filterM Row.context rows).andThen fun kept => (hflattened kept).andThen fun rows =>
    (hresults rows).andThen fun results => (failsOnly_ordered p results).returning _

end Plan

namespace Query

theorem failsOnly_resultOf (now : Moment) (q : Query) (rows : List Row)
    (x : Option Compiled ⊕ Plan) : FailsOnly QueryFault.IsOfRows (q.resultOf now rows x) := by
  cases x with
  | inl filter? =>
    have htasks : FailsOnly QueryFault.IsOfRows (Plan.keptTasks now filter? (q.candidates rows)) :=
      (Plan.failsOnly_filterM Prod.snd _).returning _
    exact (htasks.mapped _).returning _
  | inr p => exact (p.failsOnly_table _).returning _

theorem isOfQuery_ready (q : Query) : FailsOnly (fun f => f.isOfQuery = true) q.ready := by
  have hfilter : FailsOnly (fun f => f.isOfQuery = true)
      ((q.filter?.bind nonempty?).mapM Compiled.read) := by
    cases q.filter?.bind nonempty? with
    | none => trivial
    | some source => exact (isOfQuery_read source).mapped some
  refine hfilter.andThen fun filter? => ?_
  split
  · trivial
  · exact (Plan.isOfQuery_ofTable q filter?).mapped _

/-- What is wrong with a query is reported for all rows alike, at any time. Anything else that ends it is
a failure of the rows, met when nothing is wrong with the query. -/
theorem run_mistakes (now now' : Moment) (q : Query) (xs ys : List Row) :
    (∀ f, f.isOfQuery = true →
      ((q.run now xs).result.1 = .error f ↔ (q.run now' ys).result.1 = .error f)) ∧
    ∀ f, (q.run now xs).result.1 = .error f →
      (q.ready = .error f ∧ f.isOfQuery = true) ∨ ((∃ x, q.ready = .ok x) ∧ f.IsOfRows) := by
  have hquery := failsOnly_iff.mp q.isOfQuery_ready
  cases hready : q.ready with
  | error g =>
    rw [result_of_fault hready, result_of_fault hready]
    refine ⟨fun f _ => Iff.rfl, fun f hf => ?_⟩
    cases hf
    exact .inl ⟨rfl, hquery g hready⟩
  | ok x =>
    rw [result_of_ready hready, result_of_ready hready]
    have hrows (now : Moment) (rows : List Row) := failsOnly_iff.mp (failsOnly_resultOf now q rows x)
    have hno (now : Moment) (rows : List Row) (f : QueryFault) (hf : f.isOfQuery = true) :
        q.resultOf now rows x ≠ .error f := by
      intro h
      obtain ⟨e, rfl, -⟩ := hrows now rows f h
      cases hf
    refine ⟨fun f hf => iff_of_false (hno now xs f hf) (hno now' ys f hf), fun f hf => .inr ?_⟩
    exact ⟨⟨x, rfl⟩, hrows now xs f hf⟩

theorem run_mistakes_ungrouped :
    let q : Query := ⟨.table, [⟨"SUM(a)", none⟩], none, none, none, [], none, none⟩
    let f : QueryFault := .ungrouped ["SUM(a)"]
    f.isOfQuery = true ∧ ∀ rows, (q.run default rows).result.1 = .error f := by
  intro q f
  have hempty : (q.run default []).result.1 = .error f := by decide +kernel
  exact ⟨rfl, fun rows => ((run_mistakes default default q [] rows).1 f rfl).mp hempty⟩

end Query
end NoteQuery
