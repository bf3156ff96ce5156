import NoteQuery.Proofs.Order.Stability
import NoteQuery.Proofs.Outcome.Together
import NoteQuery.Proofs.Query.Headers

/-! An order by an expression and the same expression as a column. Without the column the order asks for the
value of the expression on the row that a result was made of, with the column it reads it from the result. Both
are the same value, null where the expression fails locally, and so the rows come in the same order. -/

namespace NoteQuery
set_option autoImplicit false

theorem Record.get_insert (r : Record) (key : String) (v : Value) : (Record.insert r key v).get key = v := by
  induction r with
  | nil => simp [Record.insert, Record.get, Record.get?]
  | cons e r ih =>
    rw [Record.insert]
    split
    · simp [Record.get, Record.get?, List.lookup]
    · next hk =>
      have hkey : (key == e.1) = false := beq_false_of_ne (Ne.symm hk)
      simpa only [Record.get, Record.get?, List.lookup, hkey] using ih

namespace Plan

variable {now : Moment} {q : Query} {filter? : Option Compiled}

/-! ### The plan -/

/-- A field that has to be an expression. -/
def onlyProjection : FieldSpec × (Aggregate ⊕ ProjectedField) → Except QueryFault ProjectedField
  | (spec, .inl _) => .error (.ungrouped [spec.expression])
  | (_, .inr p) => .ok p

/-- Reads a field of a query without groups. -/
def readProjection (spec : FieldSpec) : Except QueryFault ProjectedField := do
  onlyProjection (spec, ← readField spec)

/-- What results with some columns are sorted by, where that is none of the columns. -/
def readSortKey (sort? : Option SortClause) (columns : List String) : Except QueryFault (Option Compiled) :=
  match sort? with
  | none => .ok none
  | some s => if columns.contains s.field then .ok none else some <$> Compiled.read s.field

theorem mapM_onlyProjection (fields : List (FieldSpec × (Aggregate ⊕ ProjectedField))) :
    if (fields.filterMap fun f => f.2.getLeft?).isEmpty then
      fields.mapM onlyProjection = .ok (fields.filterMap fun f => f.2.getRight?)
    else ∃ f, fields.mapM onlyProjection = .error f := by
  induction fields with
  | nil => rfl
  | cons field fields ih =>
    obtain ⟨spec, a | p⟩ := field
    · exact ⟨_, rfl⟩
    · rw [List.mapM_cons]
      change if (fields.filterMap fun f => f.2.getLeft?).isEmpty then _ else _
      split
      · next hnone =>
        rw [if_pos hnone] at ih
        rw [ih]
        rfl
      · next hsome =>
        rw [if_neg hsome] at ih
        obtain ⟨f, hf⟩ := ih
        exact ⟨f, by rw [hf]; rfl⟩

/-- Without groups a plan is made field by field, and then the order is read. -/
theorem ofTable_ungrouped (hgroups : q.groups = []) (filter? : Option Compiled) :
    Together Eq (ofTable q filter?) (do
      let ps ← q.fields.mapM readProjection
      let names := ps.map fun p => p.spec.name
      let sortKey? ← readSortKey q.sort? names
      return ⟨q, filter?, [], ps, names, sortKey?⟩) := by
  have hread : readProjection = fun spec => (do return (spec, ← readField spec)) >>= onlyProjection := by
    funext spec
    rw [bind_assoc]
    rfl
  rw [hread]
  refine .congr (.refl _) ((Together.twoPasses _ onlyProjection q.fields).symm.andThen _) ?_
  unfold ofTable
  rw [bind_assoc]
  refine .after _ fun fields _ => ?_
  have hall := mapM_onlyProjection fields
  rw [hgroups]
  split at hall
  · next hnone =>
    rw [hall, List.isEmpty_iff.mp hnone]
    dsimp only
    rw [if_neg (by decide), if_pos List.isEmpty_nil]
    change Together Eq _ (readSortKey q.sort? _ >>= _)
    unfold readSortKey
    cases q.sort? with
    | none => exact .refl _
    | some s =>
      dsimp only
      split <;> exact .refl _
  · next hsome =>
    obtain ⟨f, hf⟩ := hall
    rw [hf]
    dsimp only
    rw [if_pos (by simpa using hsome)]
    exact .failures

/-! ### The rows -/

theorem projected_append (ps : List ProjectedField) (p : ProjectedField) (r : Row) :
    projected now (ps ++ [p]) r = do
      let row ← projected now ps r
      let v ← Running.orElse (p.compiled.expr.evaluate now r.context) .null
      return { row with fields := Record.insert row.fields p.spec.name v } := by
  simp only [projected, List.mapM_append, List.mapM_cons, List.mapM_nil, bind_assoc, pure_bind]
  refine bind_congr fun entries => bind_congr fun v => ?_
  rw [Record.ofList, List.foldl_append]
  rfl

theorem not_mem_keys_of_projected {ps : List ProjectedField} {r row : Row} {name : String}
    (hnew : name ∉ ps.map (·.spec.name)) (h : projected now ps r = .ok row) :
    name ∉ Record.keys row.fields := by
  obtain ⟨entries, hentries, h⟩ := bind_eq_ok.mp h
  cases h
  rw [Record.keys_ofList, keys_of_mapM hentries, List.mem_eraseDups]
  exact hnew

/-- A row of a result, and one that shows a value after its fields. -/
def ShowsAlso (column : String) (v : Value) (row row' : Row) : Prop :=
  row' = { row with fields := row.fields ++ [(column, v)] }

/-- A result with its key, and one with the same key that shows it after its fields. -/
def ShowsKey (column : String) (x x' : Value × Sourced) : Prop :=
  x'.1 = x.1 ∧ ShowsAlso column x.1 x.2.row x'.2.row

/-- A plan that sorts by an expression, and one that shows the values of the expression and sorts by these. -/
structure Extends (s : SortClause) (p p' : Plan) : Prop where
  query : p.query.sort? = some s ∧ p'.query.sort? = some s ∧ p.query.groups = [] ∧ p'.query.groups = []
  limit : p'.query.limit? = p.query.limit?
  flatten : p'.query.flatten? = p.query.flatten?
  filter : p'.filter? = p.filter?
  columns : p.columns = p.projections.map (·.spec.name) ∧ p'.columns = p.columns ++ [s.field]
  fresh : s.field ∉ p.columns
  key : p'.sortKey? = none ∧ ∃ e, p.sortKey? = some e ∧
    p'.projections = p.projections ++ [⟨⟨s.field, none⟩, e⟩]

/-- The results of a plan, each with what it is sorted by. -/
def keyed (now : Moment) (p : Plan) (s : SortClause) (rows : List Row) :
    Except QueryFault (List (Value × Sourced)) := do
  let results ← p.results now rows
  results.mapM fun x => do return (← sortValue now p s x, x)

variable {s : SortClause} {p p' : Plan}

theorem Extends.keyed (h : Extends s p p') (rows : List Row) :
    Together (List.Forall₂ (ShowsKey s.field)) (p.keyed now s rows) (p'.keyed now s rows) := by
  obtain ⟨-, -, hgroups, hgroups'⟩ := h.query
  obtain ⟨hnone, e, hkey, hprojections⟩ := h.key
  have hnew : s.field ∉ p.projections.map (·.spec.name) := h.columns.1 ▸ h.fresh
  unfold Plan.keyed results
  rw [hgroups, hgroups']
  refine .congr (.twoPasses _ _ rows) (.twoPasses _ _ rows) (.mapM fun r _ => ?_)
  simp only [hprojections, projected_append, bind_assoc, pure_bind]
  refine .after _ fun row hrow => ?_
  unfold sortValue
  rw [hkey, hnone]
  refine .after _ fun v _ => ?_
  have hinsert := Record.insert_of_not_mem (not_mem_keys_of_projected hnew hrow) v
  exact .values ⟨Record.get_insert _ _ _, congrArg (Row.mk row.file · row.text?) hinsert⟩

theorem sortByKey_together {column : String} (descending : Bool) {keyed keyed' : List (Value × Sourced)}
    (h : List.Forall₂ (ShowsKey column) keyed keyed') :
    Together (List.Forall₂ fun x x' => ∃ v, ShowsAlso column v x.row x'.row)
      (sortByKey descending keyed) (sortByKey descending keyed') := by
  unfold sortByKey
  dsimp only
  refine (Order.sortM_forall₂ h fun x y hxy x' y' hxy' => ?_).bind fun xs ys hsorted => .values ?_
  · rw [hxy.1, hxy'.1]
  · refine List.forall₂_map_left_iff.mpr (List.forall₂_map_right_iff.mpr (hsorted.imp fun x y hxy => ?_))
    exact ⟨x.1, hxy.2⟩

theorem limited_forall₂ {α β : Type} {rel : α → β → Prop} {xs : List α} {ys : List β}
    (h : List.Forall₂ rel xs ys) (limit? : Option Nat) :
    List.Forall₂ rel (limited limit? xs) (limited limit? ys) := by
  unfold limited
  split
  · split
    · exact h
    · exact List.forall₂_take _ h
  · exact h

theorem Extends.table (h : Extends s p p') (candidates : List Row) :
    Together (List.Forall₂ fun row row' => ∃ v, ShowsAlso s.field v row row')
      (p.table now candidates) (p'.table now candidates) := by
  obtain ⟨hsort, hsort', -, -⟩ := h.query
  have hordered (p : Plan) (hs : p.query.sort? = some s) (rows : List Row) :
      (p.results now rows >>= p.ordered now) =
        p.keyed now s rows >>= fun keyed => (sortByKey s.descending keyed).mapError .evaluation := by
    unfold Plan.ordered Plan.keyed
    rw [hs, bind_assoc]
  unfold Plan.table
  rw [h.filter, h.flatten, h.limit]
  refine .after _ fun kept _ => .after _ fun rows _ => ?_
  rw [← bind_assoc, ← bind_assoc, hordered p hsort, hordered p' hsort']
  refine Together.bind ((h.keyed rows).bind fun keyed keyed' hkeyed =>
    (sortByKey_together s.descending hkeyed).mapError _ _) fun xs ys hall => .values ?_
  refine limited_forall₂ ?_ _
  exact List.forall₂_map_left_iff.mpr (List.forall₂_map_right_iff.mpr hall)

end Plan

namespace Query

variable {now : Moment} {q : Query} {s : SortClause}

/-- A query with one more field. -/
def withField (q : Query) (expression : String) : Query :=
  { q with fields := q.fields ++ [⟨expression, none⟩] }

theorem projections_eq_of_mapM {ps : List ProjectedField} (h : q.fields.mapM Plan.readProjection = .ok ps) :
    q.projections = ps := by
  have hall := filterMap_of_mapM h some
  rw [List.filterMap_some] at hall
  rw [hall, projections]
  refine List.filterMap_congr fun spec _ => ?_
  unfold Plan.readProjection
  cases Plan.readField spec with
  | error f => rfl
  | ok x => cases x <;> rfl

theorem readProjection_expression {expression : String} (hfile : expression ≠ Context.fileName)
    (haggregate : Aggregate.read expression = .ok none) :
    Plan.readProjection ⟨expression, none⟩ =
      (fun e => ⟨⟨expression, none⟩, e⟩) <$> Compiled.read expression := by
  unfold Plan.readProjection Plan.readField
  rw [haggregate]
  dsimp only
  rw [if_neg hfile]
  cases Compiled.read expression <;> rfl

theorem ofTable_withField (hgroups : q.groups = []) (hsort : q.sort? = some s) (hnew : s.field ∉ q.header)
    (hfile : s.field ≠ Context.fileName) (haggregate : Aggregate.read s.field = .ok none)
    (filter? : Option Compiled) :
    Together (Plan.Extends s) (Plan.ofTable q filter?) (Plan.ofTable (q.withField s.field) filter?) := by
  refine .congr (Plan.ofTable_ungrouped hgroups filter?)
    (Plan.ofTable_ungrouped (q := q.withField s.field) hgroups filter?) ?_
  simp only [withField, List.mapM_append, List.mapM_cons, List.mapM_nil, bind_assoc, pure_bind, hsort,
    readProjection_expression hfile haggregate]
  refine .after _ fun ps hps => ?_
  have hheader : q.header = ps.map (·.spec.name) := by
    rw [header, hgroups, projections_eq_of_mapM hps]
    rfl
  rw [hheader] at hnew
  simp only [Plan.readSortKey, bind_map_left]
  rw [if_neg (by simpa using hnew)]
  simp only [bind_map_left]
  refine .after _ fun e _ => ?_
  rw [if_pos (by simp [FieldSpec.name])]
  refine .values ⟨⟨hsort, rfl, hgroups, hgroups⟩, rfl, rfl, rfl, ⟨rfl, ?_⟩, hnew, rfl, e, rfl, rfl⟩
  exact List.map_append

/-- What the order of a table or list without groups is by may stand among the fields as well. That adds a
column and to each row a value in it: the rows are the same, in the same order. -/
theorem run_withField (now : Moment) (rows : List Row) (htask : q.statement ≠ .task) (hgroups : q.groups = [])
    (hsort : q.sort? = some s) (hnew : s.field ∉ q.header) (hfile : s.field ≠ Context.fileName)
    (haggregate : Aggregate.read s.field = .ok none) :
    Together (fun result result' => result'.statement = result.statement ∧ result'.tasks = result.tasks ∧
        result'.columns = result.columns ++ [s.field] ∧
        List.Forall₂ (fun row row' => ∃ v, Plan.ShowsAlso s.field v row row') result.rows result'.rows)
      (q.run now rows).result.1 ((q.withField s.field).run now rows).result.1 := by
  rw [(run_comesTo now q rows).result_fst, (run_comesTo now (q.withField s.field) rows).result_fst]
  unfold ready
  rw [bind_assoc, bind_assoc]
  refine .after _ fun filter? _ => ?_
  have htask' : (q.withField s.field).statement ≠ .task := htask
  rw [if_neg htask, if_neg htask', bind_map_left, bind_map_left]
  refine (ofTable_withField hgroups hsort hnew hfile haggregate filter?).bind fun p p' h => ?_
  exact (h.table (q.candidates rows)).bind fun shown shown' hshown => .values ⟨rfl, rfl, h.columns.2, hshown⟩

/-- The order is by `-b`, which fails on the first row. -/
theorem run_withField_failing :
    let q : Query := ⟨.list, [⟨"b", some "x"⟩], none, none, some ⟨"-b", true⟩, [], none, some 2⟩
    let rows := [Group.oneField "b" (.text "t"), Group.oneField "b" (.int 1), Group.oneField "b" (.int 2)]
    q.statement ≠ .task ∧ q.groups = [] ∧ "-b" ∉ q.header ∧ "-b" ≠ Context.fileName ∧
      Aggregate.read "-b" = .ok none ∧ ∃ result result', (q.run default rows).result.1 = .ok result ∧
        ((q.withField "-b").run default rows).result.1 = .ok result' ∧ result'.columns = ["x", "-b"] ∧
        List.Forall₂ (fun row row' => ∃ v, Plan.ShowsAlso "-b" v row row') result.rows result'.rows := by
  intro q rows
  have hheader : "-b" ∉ q.header := by decide +kernel
  have haggregate : Aggregate.read "-b" = .ok none := by decide +kernel
  have htask : q.statement ≠ .task := by decide
  have hfile : "-b" ≠ Context.fileName := by decide
  have hcolumns : (q.run default rows).result.1.toOption.map (·.columns) = some ["x"] := by decide +kernel
  obtain ⟨result, hresult, hx⟩ := Option.map_eq_some_iff.mp hcolumns
  have h := run_withField (s := ⟨"-b", true⟩) default rows htask rfl rfl hheader hfile haggregate
  rw [toOption_eq_some.mp hresult] at h
  cases hrun : ((q.withField "-b").run default rows).result.1 with
  | error f => rw [hrun] at h; cases h
  | ok result' =>
    rw [hrun] at h
    obtain ⟨-, -, hnames, hrows⟩ := h
    rw [hx] at hnames
    exact ⟨htask, rfl, hheader, hfile, haggregate, result, result', toOption_eq_some.mp hresult, rfl,
      hnames, hrows⟩

end Query

end NoteQuery
